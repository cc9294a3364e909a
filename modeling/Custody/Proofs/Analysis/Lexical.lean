import Custody.Proofs.Check.Context

/-! The context of a place is lexical. The state counts the loops and the blocks of each mode that
are open and holds the type that the routine returns. At each place that an analysis comes to, this
is what the pieces of the program around the place say. An analysis that does not look at what the
state holds, but works the context of each place out from the pieces around it, is the same
analysis. -/

namespace Custody

/-- The diagnostic does not blame the place where something stands. -/
def Diagnostic.Placeless (diagnostic : Diagnostic) : Prop :=
  ∀ operation requirement, diagnostic.fault ≠ .modeRequired operation requirement

namespace Check

variable {α β : Type} {env : Env} {s t : State} {task part : Task}

/-! ### The shape of a program -/

/-- Items are only parts of items. -/
theorem Visits.of_items {items : List LinkedItem} (h : Visits env task s (.items items) t) :
    ∃ around, task = .items around := by
  cases h
  exact ⟨_, rfl⟩

/-- Expressions and the lists they consist of. -/
def Task.IsExpr : Task → Prop
  | .expr _ _ | .args _ _ | .looseArgs _ | .inits _ _ _ _ => True
  | _ => False

/-- An expression has no statements in it. -/
theorem Visits.isExpr (h : Visits env task s part t) (htask : task.IsExpr) :
    part.IsExpr ∧ task.enclosures part = [] := by
  cases h <;> first | exact ⟨trivial, rfl⟩ | cases htask

/-! ### What depends on the place -/

theorem require_apply (condition : Bool) (fault : Fault) (span : Span) (env : Env) (s : State) :
    require condition fault span env s =
      (.ok (), s.reports (if condition then [] else [⟨fault, span⟩])) := by
  cases condition with
  | true => simp [require]
  | false => rfl

/-- All that a check reports by itself is placeless. -/
def Placeless (env : Env) (check : Check α) : Prop :=
  ∀ s, ∃ new, (check env s).2.diagnostics = s.diagnostics ++ new ∧ ∀ d ∈ new, d.Placeless

namespace Placeless

theorem pure (a : α) : Placeless env (Pure.pure a) :=
  fun _ => ⟨[], by simp, by simp⟩

theorem bind {check : Check α} {next : α → Check β} (h : Placeless env check)
    (hnext : ∀ a, Placeless env (next a)) : Placeless env (check >>= next) := by
  intro s
  obtain ⟨first, hfirst, hplaceless⟩ := h s
  rw [bind_apply]
  rcases hrun : check env s with ⟨cause | a, t⟩
  · rw [hrun] at hfirst
    exact ⟨first, hfirst, hplaceless⟩
  · rw [hrun] at hfirst
    obtain ⟨second, hsecond, hplaceless'⟩ := hnext a t
    refine ⟨first ++ second, ?_, List.forall_mem_append.2 ⟨hplaceless, hplaceless'⟩⟩
    rw [← List.append_assoc, ← hfirst]
    exact hsecond

theorem require {condition : Bool} {fault : Fault} {span : Span}
    (h : Diagnostic.Placeless ⟨fault, span⟩) :
    Placeless env (Check.require condition fault span) := by
  intro s
  refine ⟨if condition then [] else [⟨fault, span⟩], by rw [require_apply]; rfl, ?_⟩
  cases condition with
  | true => simp
  | false => simpa using h

theorem reporting {check : Check Unit} (h : Placeless env check)
    (herror : ∀ s d, (check env s).1 = .error d → d.Placeless) :
    Placeless env (Check.reporting check) := by
  intro s
  obtain ⟨new, hnew, hplaceless⟩ := h s
  have hcause := herror s
  simp only [Check.reporting, bind_apply, attempt]
  rcases hrun : check env s with ⟨cause | a, t⟩
  · rw [hrun] at hnew hcause
    refine ⟨new ++ [cause], ?_, List.forall_mem_append.2 ⟨hplaceless, ?_⟩⟩
    · rw [← List.append_assoc, ← hnew]
      rfl
    · exact List.forall_mem_singleton.2 (hcause cause rfl)
  · rw [hrun] at hnew
    exact ⟨new, hnew, hplaceless⟩

end Placeless

theorem placeless_declareToken (token : Ident) (kind : Access) (inner : Ty) :
    Placeless env (declareToken token kind inner) := by
  refine .reporting (fun s => ?_) fun s d h => ?_
  · unfold declare
    split <;> exact ⟨[], by simp, by simp⟩
  · unfold declare at h
    split at h
    · cases h
    · rename_i cause _
      cases h
      cases cause <;> intro _ _ hfault <;> cases hfault

theorem placeless_accessSource (kind : Access) (source : Ident) :
    Placeless env (accessSource kind source) := by
  intro s
  simp only [accessSource, bind_apply, state]
  cases s.table.find? source.name with
  | none =>
      refine ⟨[⟨.undefinedSymbol source.name, source.span⟩], rfl, ?_⟩
      exact List.forall_mem_singleton.2 fun _ _ h => by cases h
  | some symbol =>
      cases hvar : symbol.isVar with
      | true => exact ⟨[], by simp [hvar], by simp⟩
      | false =>
          refine ⟨[⟨.misuse (.accessToNonVariable kind source.name), source.span⟩], ?_, ?_⟩
          · simp only [hvar]
            rfl
          · exact List.forall_mem_singleton.2 fun _ _ h => by cases h

theorem placeless_enterAccess (symbol : Symbol) (kind : Access) (source token : Ident) :
    Placeless env (enterAccess symbol kind source token) := by
  intro s
  unfold enterAccess
  split
  · exact ⟨[], by simp, by simp⟩
  · rename_i violation ledger _
    refine ⟨[⟨.ofViolation violation, source.span⟩], rfl, List.forall_mem_singleton.2 ?_⟩
    cases violation <;> intro _ _ hfault <;> cases hfault

/-- Opens an access in a scope of its own, wherever it stands. -/
def takeAccess (kind : Access) (source token : Ident) : Check (Option Binding) := do
  match ← accessSource kind source with
  | none => do
      declareToken token kind .unknown
      return none
  | some symbol => do
      require (!symbol.isMoved) (.useAfterMove source.name) source.span
      checkReborrow symbol kind source
      let opened ← enterAccess symbol kind source token
      declareToken token kind symbol.ty.strip
      return opened

theorem placeless_takeAccess (kind : Access) (source token : Ident) :
    Placeless env (takeAccess kind source token) := by
  refine .bind (placeless_accessSource kind source) fun found => ?_
  cases found with
  | none => exact .bind (placeless_declareToken token kind .unknown) fun _ => .pure none
  | some symbol =>
      refine .bind (.require fun _ _ h => by cases h) fun _ => .bind ?_ fun _ => ?_
      · unfold checkReborrow
        split
        · exact .require fun _ _ h => by cases h
        · exact .pure ()
      · refine .bind (placeless_enterAccess symbol kind source token) fun opened => ?_
        exact .bind (placeless_declareToken token kind symbol.ty.strip) fun _ => .pure opened

/-- The place where an access stands is judged once, and it is reported if it is in a guard. -/
theorem openAccess_diagnostics (span : Span) (kind : Access) (source token : Ident) (env : Env)
    (s : State) :
    ∃ before after, (openAccess span kind source token env s).2.diagnostics =
        s.diagnostics ++ before ++ (if s.modes.satisfies .outsideWhenGuard then [] else
          [⟨.modeRequired (.access kind source.name) .outsideWhenGuard, token.span⟩]) ++ after ∧
      ∀ d ∈ before ++ after, d.Placeless := by
  let before : List Diagnostic := if env.language.supportsAccess kind then [] else
    [⟨.unsupported (.access kind) env.language, span⟩]
  let judged : State := ((s.reports before).openScope).reports
    (if s.modes.satisfies .outsideWhenGuard then [] else
      [⟨.modeRequired (.access kind source.name) .outsideWhenGuard, token.span⟩])
  have hopen : openAccess span kind source token env s = takeAccess kind source token env judged := by
    simp only [openAccess, beginAccess, bind_apply, language, require_apply, modify, state]
    rfl
  obtain ⟨after, hafter, hplaceless⟩ := placeless_takeAccess kind source token judged
  have hbefore : ∀ d ∈ before, d.Placeless := by
    intro d hd
    simp only [before] at hd
    split at hd
    · cases hd
    · obtain rfl := List.mem_singleton.1 hd
      exact fun _ _ h => by cases h
  rw [hopen]
  exact ⟨before, after, hafter, List.forall_mem_append.2 ⟨hbefore, hplaceless⟩⟩

/-- Checks a raw operation, wherever it stands. -/
def checkOperation (span : Span) (type : Option TypeExpr) : RawOp → List Expr → Check Ty
  | .addressOf, [arg] =>
      if arg.asIdent.isNone then fail (.misuse .addressOfNonVariable) arg.span
      else do
        let _ ← checkExpr arg .read
        return .num .uaddr
  | .readAs, [address] => do
      let target ← rawType .readAs type span
      let ty ← checkExpr address .read
      expectAddress ty address.span
      return target
  | .writeAs, [address, value] => do
      let target ← rawType .writeAs type span
      let ty ← checkExpr address .read
      expectAddress ty address.span
      let found ← checkExpr value (.argument false)
      judge (target.expect found) value.span
      return .blank
  | op, args => fail (.arityMismatch op.render op.arity args.length) span

/-- The place where a raw operation stands is judged first. -/
theorem checkExpr_raw (span : Span) (op : RawOp) (type : Option TypeExpr) (args : List Expr)
    (use : Use) (env : Env) (s : State) :
    checkExpr (.raw span op type args) use env s =
      checkOperation span type op args env (s.reports (if s.modes.satisfies .dangerOrMayhem then []
        else [⟨.modeRequired (.raw op) .dangerOrMayhem, span⟩])) := by
  have hjudge : requireUnsafe op span env s = (.ok (), s.reports (if s.modes.satisfies
      .dangerOrMayhem then [] else [⟨.modeRequired (.raw op) .dangerOrMayhem, span⟩])) := by
    simp only [requireUnsafe, bind_apply, state, require_apply]
  unfold checkOperation
  split
  · rw [checkExpr, bind_apply, hjudge]
  · rw [checkExpr, bind_apply, hjudge]
  · rw [checkExpr, bind_apply, hjudge]
  · rw [checkExpr, bind_apply, hjudge] <;> assumption

end Check

namespace Linked

open Check

variable {settings : Settings} {linked : Linked} {outer : List (Task × State)} {task : Task}
  {s : State}

/-! ### Places -/

/-- A place that an analysis comes to: the pieces around it, innermost first and each with the state
in which its check begins, and the piece that is checked there. -/
inductive Trail (settings : Settings) (linked : Linked) : List (Task × State) → Task → State → Prop
  | start : Trail settings linked [] (.items linked.items) (linked.start settings)
  | visit {outer task s part t} (htask : Trail settings linked outer task s)
      (hpart : Visits (linked.env settings) task s part t) :
      Trail settings linked ((task, s) :: outer) part t

/-- What a place lies in, read off the pieces around it. -/
def around : List (Task × State) → Task → List Enclosure
  | [], _ => []
  | (task, _) :: outer, part => task.enclosures part ++ around outer task

/-- The context of a place, read off the pieces around it. Of the states only the tables are used, in
which the results of routines are resolved. -/
def contextAt : List (Task × State) → Task → Context
  | [], _ => {}
  | (task, s) :: outer, part => task.contextOf part s.table (contextAt outer task)

/-- The analysis with the context handed down from the outermost place. -/
noncomputable def analyzeIn (linked : Linked) (settings : Settings) (context : Context) : Analysis :=
  let final := ((Task.items linked.items).checkIn context (linked.env settings)
    (linked.start settings)).2
  { diagnostics := final.diagnostics, table := final.table, modules := linked.modules }

theorem context_start (settings : Settings) (linked : Linked) :
    (linked.start settings).context = {} := by
  obtain ⟨n, hkept⟩ := kept_loadPrelude settings linked
  simp only [start, State.context, State.openScope, hkept.loops, hkept.modes, hkept.result]
  rfl

namespace Trail

theorem visited (h : Trail settings linked outer task s) : Visited settings linked task s := by
  induction h with
  | start => exact .start
  | visit _ hpart ih => exact .visit ih hpart

theorem of_visited (h : Visited settings linked task s) :
    ∃ outer, Trail settings linked outer task s := by
  induction h with
  | start => exact ⟨[], .start⟩
  | visit _ hpart ih =>
      obtain ⟨outer, htrail⟩ := ih
      exact ⟨_, .visit htrail hpart⟩

theorem sound (h : Trail settings linked outer task s) : s.Sound :=
  Reachable.sound ⟨task, h.visited⟩

theorem context_eq (h : Trail settings linked outer task s) : s.context = contextAt outer task := by
  induction h with
  | start => exact context_start settings linked
  | visit htask hpart ih => rw [hpart.context_eq htask.sound, ih, contextAt]

/-- A module lies in nothing. -/
theorem around_items (h : Trail settings linked outer task s) :
    ∀ items, task = .items items → around outer task = [] := by
  induction h with
  | start => exact fun _ _ => rfl
  | visit htask hpart ih =>
      rintro items rfl
      obtain ⟨before, rfl⟩ := hpart.of_items
      rw [around, Task.enclosures_items, List.nil_append]
      exact ih before rfl

/-- The counts of the state are those of the place. -/
theorem counts (h : Trail settings linked outer task s) :
    s.loops = (around outer task).count .loop ∧
      (∀ mode, s.modes.count mode = (around outer task).count (.mode mode)) ∧
      (.routine ∉ around outer task → s.result = none) := by
  induction h with
  | start =>
      obtain ⟨n, hkept⟩ := kept_loadPrelude settings linked
      refine ⟨hkept.loops, fun mode => ?_, fun _ => hkept.result⟩
      rw [Linked.start, State.openScope, hkept.modes]
      cases mode <;> rfl
  | @visit outer task s part t htask hpart ih =>
      obtain ⟨hloops, hmodes, hresult⟩ := ih
      rcases hpart.leads with ⟨_, _, _, _, hopened, hnone⟩ | hleads
      · rw [around, hnone, List.nil_append]
        cases hopened <;> exact ⟨hloops, hmodes, hresult⟩
      · obtain ⟨-, hcounts, hrest⟩ := hleads.surroundings htask.sound
        have hmodes' : ∀ mode, t.modes.count mode =
            (around ((task, s) :: outer) part).count (.mode mode) := by
          intro mode
          rw [hcounts, hmodes, around, List.count_append, Nat.add_comm]
        by_cases hroutine : .routine ∈ task.enclosures part
        · obtain ⟨routine, items, body, rfl, rfl⟩ := routine_mem_enclosures hroutine
          refine ⟨?_, hmodes', fun hnot => absurd (List.mem_append_left _ hroutine) hnot⟩
          rw [(hpart.routine_body htask.sound).1, around, htask.around_items _ rfl, List.append_nil]
          simp only [Task.enclosures]
          split <;> rfl
        · obtain ⟨hloops', hresult'⟩ := hrest hroutine
          refine ⟨?_, hmodes', fun hnot => ?_⟩
          · rw [hloops', hloops, around, List.count_append, Nat.add_comm]
          · rw [hresult']
            exact hresult fun hmem => hnot (List.mem_append_right _ hmem)

theorem isActive_iff (h : Trail settings linked outer task s) (mode : Mode) :
    s.modes.isActive mode = true ↔ .mode mode ∈ around outer task := by
  rw [Modes.isActive, decide_eq_true_iff, h.counts.2.1, List.count_pos_iff]

/-- Nothing in a routine changes what it returns: routines have no items in them. -/
theorem result_eq {part : Task} {t : State} {ty : Ty} (h : Trail settings linked outer task s)
    (hpart : Visits (linked.env settings) task s part t) (hsome : s.result = some ty) :
    t.result = some ty := by
  rcases hpart.leads with ⟨_, _, _, _, hopened, -⟩ | hleads
  · cases hopened <;> exact hsome
  · obtain ⟨-, -, hrest⟩ := hleads.surroundings h.sound
    have hroutine : .routine ∉ task.enclosures part := by
      intro hmem
      obtain ⟨routine, items, body, rfl, -⟩ := routine_mem_enclosures hmem
      have hnone : s.result = none := h.counts.2.2 (by simp [h.around_items _ rfl])
      cases hsome.symm.trans hnone
    rw [(hrest hroutine).2]
    exact hsome

/-- What holds where a part is entered, and in all parts of that where it holds, holds everywhere in
the part. -/
theorem inside {Q : List (Task × State) → Task → State → Prop} {part piece : Task} {t u : State}
    {rest : List (Task × State)}
    (hentered : Trail settings linked rest piece u →
      Visits (linked.env settings) piece u part t → Q ((piece, u) :: rest) part t)
    (hstep : ∀ outer task s part t, Trail settings linked outer task s →
      Visits (linked.env settings) task s part t → Q outer task s → Q ((task, s) :: outer) part t)
    (h : Trail settings linked outer task s) :
    ∀ inner, (task, s) :: outer = inner ++ (part, t) :: (piece, u) :: rest → Q outer task s := by
  induction h with
  | start =>
      intro inner heq
      have hlength := congrArg List.length heq
      simp at hlength
      omega
  | visit htask hpart ih =>
      intro inner heq
      cases inner with
      | nil =>
          cases heq
          exact hentered htask hpart
      | cons place inner =>
          exact hstep _ _ _ _ _ htask hpart (ih inner (List.cons.inj heq).2)

theorem returned (h : Trail settings linked outer task s) (inner : List (Task × State))
    (body : List Stmt) (t : State) (routine : Routine) (items : List LinkedItem) (u : State)
    (rest : List (Task × State)) (heq : (task, s) :: outer =
      inner ++ (.stmts body, t) :: (.items (.decl (.routine routine) :: items), u) :: rest) :
    s.result = some (u.table.returned routine.result) := by
  refine inside (Q := fun _ _ s => s.result = some (u.table.returned routine.result)) ?_ ?_ h inner heq
  · intro hitems hbody
    exact (hbody.routine_body hitems.sound).2
  · intro outer task s part t htask hpart hresult
    exact htask.result_eq hpart hresult

/-- All around an expression at the top of a module is expressions. -/
theorem around_init (h : Trail settings linked outer task s) (inner : List (Task × State))
    (init : Expr) (use : Use) (t : State) (decl : VarDecl) (items : List LinkedItem) (u : State)
    (rest : List (Task × State)) (heq : (task, s) :: outer =
      inner ++ (.expr init use, t) :: (.items (.decl (.var decl) :: items), u) :: rest) :
    task.IsExpr ∧ around outer task = [] := by
  refine inside (Q := fun outer task _ => task.IsExpr ∧ around outer task = []) ?_ ?_ h inner heq
  · intro hitems _
    exact ⟨trivial, hitems.around_items _ rfl⟩
  · rintro outer task s part t - hpart ⟨hexpr, hnone⟩
    obtain ⟨hpartExpr, henclosures⟩ := hpart.isExpr hexpr
    exact ⟨hpartExpr, by rw [around, henclosures, hnone, List.nil_append]⟩

end Trail

/-! ### The context of a place -/

/-- The context in the state is the one that is read off the place. -/
structure Fits (outer : List (Task × State)) (task : Task) (s : State) : Prop where
  loops : s.loops = (around outer task).count .loop
  modes : ∀ mode, s.modes.isActive mode = true ↔ .mode mode ∈ around outer task
  /-- In the body of a routine, the result is what its declaration says in front of it. -/
  returned : ∀ inner body t routine items u rest, (task, s) :: outer =
      inner ++ (.stmts body, t) :: (.items (.decl (.routine routine) :: items), u) :: rest →
    s.result = some (u.table.returned routine.result)
  /-- In the value of a variable at the top of a module, there is no context. -/
  initial : ∀ inner init use t decl items u rest, (task, s) :: outer =
      inner ++ (.expr init use, t) :: (.items (.decl (.var decl) :: items), u) :: rest →
    s.loops = 0 ∧ (∀ mode, s.modes.isActive mode = false) ∧ s.result = none

/-- A check opens an access, whose place is reported if it is in a guard, runs `body` under it and
ends it. -/
def RunsUnderAccess {α : Type} (env : Env) (s : State) (span : Span) (kind : Access)
    (source token : Ident) (guarded : Bool) (check body : Check α) : Prop :=
  ∃ opened t before after,
    openAccess span kind source token env s = (.ok opened, t) ∧
    t.diagnostics = s.diagnostics ++ before ++ (if guarded then
      [⟨.modeRequired (.access kind source.name) .outsideWhenGuard, token.span⟩] else []) ++ after ∧
    (∀ d ∈ before ++ after, d.Placeless) ∧
    check env s =
      ((body env t).1, (endAccess opened (body env t).2).closeScope (s.depth + 1))

/-- Whether something may stand at a place is judged by what is around the place. -/
structure Judged (env : Env) (outer : List (Task × State)) (task : Task) (s : State) : Prop where
  leaveLoop : ∀ span, checkStmt (.leaveLoop span) env s =
    (if .loop ∈ around outer task then .ok () else .error ⟨.misuse .breakOutsideLoop, span⟩, s)
  nextRound : ∀ span, checkStmt (.nextRound span) env s =
    (if .loop ∈ around outer task then .ok () else .error ⟨.misuse .continueOutsideLoop, span⟩, s)
  raw : ∀ span op type args use, checkExpr (.raw span op type args) use env s =
    checkOperation span type op args env (s.reports
      (if .mode .danger ∈ around outer task ∨ .mode .mayhem ∈ around outer task then []
        else [⟨.modeRequired (.raw op) .dangerOrMayhem, span⟩]))
  accessStmt : ∀ span kind source token body,
    RunsUnderAccess env s span kind source token (.mode .whenGuard ∈ around outer task)
      (checkStmt (.access span kind source token body)) (checkStmts body)
  accessExpr : ∀ span kind source token body use,
    RunsUnderAccess env s span kind source token (.mode .whenGuard ∈ around outer task)
      (checkExpr (.access span kind source token body) use) (checkExpr body (.store s.depth))

theorem Trail.fits (h : Trail settings linked outer task s) : Fits outer task s where
  loops := h.counts.1
  modes := h.isActive_iff
  returned := h.returned
  initial inner init use t decl items u rest heq := by
    obtain ⟨-, hnone⟩ := h.around_init inner init use t decl items u rest heq
    obtain ⟨hloops, -, hresult⟩ := h.counts
    refine ⟨by simp [hloops, hnone], fun mode => ?_, hresult (by simp [hnone])⟩
    rw [Bool.eq_false_iff, Ne, h.isActive_iff, hnone]
    exact List.not_mem_nil

theorem Trail.requireLoop (h : Trail settings linked outer task s) (misuse : Misuse) (span : Span) :
    (do
      let state ← state
      if state.loops = 0 then fail (.misuse misuse) span : Check Unit) (linked.env settings) s =
      (if .loop ∈ around outer task then .ok () else .error ⟨.misuse misuse, span⟩, s) := by
  have hloops : s.loops = 0 ↔ .loop ∉ around outer task := by
    rw [h.counts.1, List.count_eq_zero]
  rw [bind_apply]
  by_cases hloop : .loop ∈ around outer task
  · simp [state, hloop, hloops]
  · simp [state, hloop, hloops, fail]

theorem Trail.isUnsafe_iff (h : Trail settings linked outer task s) :
    s.modes.satisfies .dangerOrMayhem = true ↔
      .mode .danger ∈ around outer task ∨ .mode .mayhem ∈ around outer task := by
  rw [Modes.satisfies, Modes.isUnsafe, Bool.or_eq_true, h.isActive_iff, h.isActive_iff]

theorem Trail.runsUnderAccess {α : Type} (h : Trail settings linked outer task s) (span : Span)
    (kind : Access) (source token : Ident) (body : Check α) :
    RunsUnderAccess (linked.env settings) s span kind source token
      (.mode .whenGuard ∈ around outer task) (withAccess span kind source token body) body := by
  obtain ⟨opened, t, hopen, -⟩ := openAccess_opens span kind source token (linked.env settings) s
  obtain ⟨before, after, hdiagnostics, hplaceless⟩ :=
    openAccess_diagnostics span kind source token (linked.env settings) s
  rw [hopen] at hdiagnostics
  refine ⟨opened, t, before, after, hopen, ?_, hplaceless, withAccess_apply hopen body⟩
  rw [hdiagnostics, Modes.satisfies]
  by_cases hguard : .mode .whenGuard ∈ around outer task
  · simp [hguard, (h.isActive_iff .whenGuard).2 hguard]
  · have hactive : s.modes.isActive .whenGuard = false :=
      Bool.eq_false_iff.2 fun hactive => hguard ((h.isActive_iff .whenGuard).1 hactive)
    simp [hguard, hactive]

theorem Trail.judged (h : Trail settings linked outer task s) :
    Judged (linked.env settings) outer task s where
  leaveLoop span := by
    rw [checkStmt]
    exact h.requireLoop .breakOutsideLoop span
  nextRound span := by
    rw [checkStmt]
    exact h.requireLoop .continueOutsideLoop span
  raw span op type args use := by
    rw [checkExpr_raw]
    simp only [h.isUnsafe_iff]
  accessStmt span kind source token body := by
    rw [checkStmt]
    exact h.runsUnderAccess span kind source token (checkStmts body)
  accessExpr span kind source token body use := by
    have hcheck : checkExpr (.access span kind source token body) use (linked.env settings) s =
        withAccess span kind source token (checkExpr body (.store s.depth)) (linked.env settings)
          s := by
      rw [checkExpr]
      rfl
    obtain ⟨opened, t, before, after, hopen, hdiagnostics, hplaceless, hrun⟩ :=
      h.runsUnderAccess span kind source token (checkExpr body (.store s.depth))
    exact ⟨opened, t, before, after, hopen, hdiagnostics, hplaceless, hcheck.trans hrun⟩

/-- The check of a piece is made of what is done with its parts in the states in which they are
visited, whatever is done with them in others. -/
def RunsParts (env : Env) (task : Task) (s : State) : Prop :=
  ∀ parts : (part : Task) → Check part.Result,
    (∀ part t, Visits env task s part t → parts part env t = part.check env t) →
      task.checkBy parts env s = task.check env s

/-- Every piece that an analysis checks stands at a place, and the state in which it is checked knows
the context of this place. A break or a continue is reported exactly outside of loops, a raw operation
exactly outside of unsafe blocks, and a scoped access exactly in a guard. The pieces are all that is
checked, and the analysis is the one that hands the context of each place down, which does not depend
on the context that the state holds. -/
theorem context_is_lexical (settings : Settings) (linked : Linked) :
    (∀ task s, Visited settings linked task s → ∃ outer, Trail settings linked outer task s) ∧
    (∀ outer task s, Trail settings linked outer task s →
      Fits outer task s ∧ Judged (linked.env settings) outer task s ∧
      RunsParts (linked.env settings) task s ∧
      task.check (linked.env settings) s =
        task.checkIn (contextAt outer task) (linked.env settings) s) ∧
    linked.analyze settings = linked.analyzeIn settings {} ∧
    ∀ (task : Task) (context held : Context) (env : Env) (s : State),
      task.checkIn context env (s.inContext held) =
        ((task.checkIn context env s).1, (task.checkIn context env s).2.inContext held) := by
  refine ⟨fun _ _ => Trail.of_visited, fun outer task s h => ⟨h.fits, h.judged, ?_, ?_⟩, ?_, ?_⟩
  · exact fun parts hparts => Task.checkBy_at hparts
  · rw [← h.context_eq]
    exact (task.checkIn_context _ h.sound).symm
  · rw [analyze_eq, analyzeIn, ← context_start settings linked,
      (Task.items linked.items).checkIn_context _ (sound_start settings linked)]
    rfl
  · exact Task.checkIn_inContext

/-- A usurping routine with a break in a dangerous block of a loop. -/
def leaving : Linked where
  prelude := []
  items := [.decl (.routine {
    span := {}
    name := ⟨"f", {}⟩
    params := []
    result := none
    usurping := true
    body := some [.whileLoop {} (.literal {} (.bool true)) [.danger {} [.leaveLoop {}]]] })]

theorem context_is_lexical_leaving :
    ∃ outer s, Trail {} leaving outer (.stmt (.leaveLoop {})) s ∧
      around outer (.stmt (.leaveLoop {})) = [.mode .danger, .loop, .routine, .mode .usurping] ∧
      s.loops = 1 ∧ s.modes.isActive .danger = true ∧ s.modes.isActive .usurping = true ∧
      s.modes.isActive .mayhem = false ∧ s.result = some .blank ∧
      checkStmt (.leaveLoop {}) (leaving.env {}) s = (.ok (), s) ∧
      (Task.stmt (.leaveLoop {})).checkIn (contextAt outer (.stmt (.leaveLoop {}))) (leaving.env {}) s =
        (.ok (), s) ∧
      (leaving.analyzeIn {} {}).diagnostics = [] := by
  have hplace : ∃ outer s, Trail {} leaving outer (.stmt (.leaveLoop {})) s ∧
      around outer (.stmt (.leaveLoop {})) = [.mode .danger, .loop, .routine, .mode .usurping] ∧
      ∃ inner body t routine items u, (.stmt (.leaveLoop {}), s) :: outer =
          inner ++ [(.stmts body, t), (.items (.decl (.routine routine) :: items), u)] ∧
        u.table.returned routine.result = .blank :=
    ⟨_, _, .visit (.visit (.visit (.visit (.visit (.visit .start (.routineBody rfl rfl rfl))
      .firstStmt) (.loopBody rfl)) .firstStmt) (.danger rfl)) .firstStmt, rfl,
      [_, _, _, _, _], _, _, _, _, _, rfl, rfl⟩
  obtain ⟨outer, s, htrail, haround, inner, body, t, routine, items, u, heq, hblank⟩ := hplace
  obtain ⟨-, hplaces, hanalysis, -⟩ := context_is_lexical {} leaving
  obtain ⟨hfits, hjudged, -, hcheck⟩ := hplaces outer _ s htrail
  have hloops := hfits.loops
  have hdanger := (hfits.modes .danger).2
  have husurping := (hfits.modes .usurping).2
  have hmayhem := (hfits.modes .mayhem).1
  have hbreak := hjudged.leaveLoop {}
  rw [haround] at hloops hdanger husurping hmayhem hbreak
  refine ⟨outer, s, htrail, haround, hloops, hdanger (by decide), husurping (by decide), ?_, ?_,
    hbreak, hcheck.symm.trans hbreak, ?_⟩
  · exact Bool.eq_false_iff.2 fun hactive => absurd (hmayhem hactive) (by decide)
  · rw [hfits.returned inner body t routine items u [] heq, hblank]
  · rw [← hanalysis]
    decide +kernel

end Linked

end Custody
