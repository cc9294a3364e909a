import Custody.Proofs.Check.Kept

/-! The states that an analysis goes through. Checking a piece of a program leads to checking its
parts, each in the state that the steps before it have left. What is true when an analysis starts,
and stays true on the way into every part and along every completed check, is true in all the states
in which some piece of the program is checked. -/

namespace Custody

namespace Check

/-! ### The way into a part -/

/-- What a place can lie in. -/
inductive Enclosure where
  | mode (mode : Mode)
  | loop
  | routine
  deriving DecidableEq

/-- What a part lies in within the piece that it is a part of. Of a loop only the body does, and of
the parts of a case only its guard lies in a guard. -/
def Task.enclosures : Task → Task → List Enclosure
  | .stmt (.whileLoop _ _ _), .stmts _ | .stmt (.forLoop _ _ _ _), .stmts _ => [.loop]
  | .stmt (.danger _ _), .stmts _ => [.mode .danger]
  | .stmt (.mayhem _ _), .stmts _ => [.mode .mayhem]
  | .arms _ _, .expr _ _ => [.mode .whenGuard]
  | .items (.decl (.routine routine) :: _), .stmts _ =>
      if routine.usurping then [.routine, .mode .usurping] else [.routine]
  | _, _ => []

theorem Task.enclosures_items (task : Task) (items : List LinkedItem) :
    task.enclosures (.items items) = [] := by
  unfold enclosures
  split <;> simp_all

/-- A check has been run from one state to the other: what every frame keeps is kept. -/
def Runs (env : Env) (s t : State) : Prop :=
  ∀ R, DeclFrame env R → AtSome R s t

/-- From one state to the other by completed checks and by what is entered, outermost first. -/
inductive Leads (env : Env) : List Enclosure → State → State → Prop
  | done {s} : Leads env [] s s
  | check {enclosures s t u} (hrun : Runs env s t) (hrest : Leads env enclosures t u) :
      Leads env enclosures s u
  | scope {enclosures s t} (hrest : Leads env enclosures s.openScope t) : Leads env enclosures s t
  | mode {enclosures s t mode} (hrest : Leads env enclosures (s.enterMode mode) t) :
      Leads env (.mode mode :: enclosures) s t
  | loop {enclosures s t} (hrest : Leads env enclosures { s with loops := s.loops + 1 } t) :
      Leads env (.loop :: enclosures) s t
  | routine {enclosures s t result}
      (hrest : Leads env enclosures { s with result := some result, loops := 0 } t) :
      Leads env (.routine :: enclosures) s t

section

variable {α : Type} {env : Env} {enclosures : List Enclosure} {s t u : State} {task part : Task}

theorem Runs.of_keeps {check : Check α} {result : Except Diagnostic α}
    (hrun : check env s = (result, t))
    (hkeeps : ∀ R, DeclFrame env R → Keeps env (AtSome R) check s) : Runs env s t :=
  fun R frame => (hkeeps R frame).related hrun

theorem Leads.run {check : Check α} {result : Except Diagnostic α}
    (hrun : check env s = (result, t))
    (hkeeps : ∀ {R}, DeclFrame env R → Keeps env (AtSome R) check s)
    (hrest : Leads env enclosures t u) : Leads env enclosures s u :=
  .check (.of_keeps hrun fun _ frame => hkeeps frame) hrest

theorem runs_checkExpr {expr : Expr} {use : Use} {ty : Ty}
    (hrun : checkExpr expr use env s = (.ok ty, t)) : Runs env s t :=
  .of_keeps hrun fun _ frame => (checkExpr_keeps frame.toExprFrame expr use s).atSome

theorem runs_attempt {expr : Expr} {use : Use} {found : Option Ty}
    (hrun : attempt (checkExpr expr use) env s = (.ok found, t)) : Runs env s t :=
  .of_keeps hrun fun _ frame =>
    .atSome (.attempt frame.toFrame (checkExpr_keeps frame.toExprFrame expr use s))

theorem runs_condition {condition : Expr}
    (hrun : reporting (checkCondition condition) env s = (.ok (), t)) : Runs env s t :=
  .of_keeps hrun fun _ frame =>
    .atSome (.reporting frame.toFrame (checkCondition_keeps frame.toExprFrame condition))

/-- The callee of a call is checked before the arguments. -/
theorem leads_callee {callee : Expr} {ty : Ty}
    (hcallee : (do
      rejectTypeCallee callee
      checkExpr callee .read) env s = (.ok ty, t)) (hrest : Leads env enclosures t u) :
    Leads env enclosures s u := by
  obtain ⟨_, v, hreject, hcheck⟩ := bind_eq_ok hcallee
  refine .check (.of_keeps hreject fun _ frame => ?_) (.check (runs_checkExpr hcheck) hrest)
  exact .atSome (rejectTypeCallee_keeps frame.toFrame callee)

theorem leads_rawType {op : RawOp} {type : Option TypeExpr} {span : Span} {target : Ty}
    (htype : (do
      requireUnsafe op span
      rawType op type span) env s = (.ok target, t)) (hrest : Leads env enclosures t u) :
    Leads env enclosures s u := by
  obtain ⟨_, v, hmode, htype⟩ := bind_eq_ok htype
  refine .check (.of_keeps hmode fun _ frame => ?_) (.check (.of_keeps htype fun _ frame => ?_) hrest)
  · exact .atSome (requireUnsafe_keeps frame.toFrame op span)
  · exact .atSome (rawType_keeps frame.toFrame op type span)

/-- A part is come to by opening an access, which is then the first step, or by completed checks and
what the part lies in. -/
theorem Visits.leads (h : Visits env task s part t) :
    (∃ kind source token opened, Opened kind source token s opened t ∧
      task.enclosures part = []) ∨ Leads env (task.enclosures part) s t := by
  cases h with
  | underAccess h | accessBody h =>
      obtain ⟨_, _, hopen, hopened⟩ := openAccess_opens _ _ _ _ env s
      cases h.symm.trans hopen
      exact .inl ⟨_, _, _, _, hopened, rfl⟩
  -- the first step is already the part
  | inner | left | operand | indexed | converted | surplusArg | firstArg | firstLooseArg
  | firstInit | innerPlace | objectPlace | indexedPlace | value | target | given
  | branchCondition | loopCondition | iterated | subject | raised | firstStmt => exact .inr .done
  -- one check comes before the part
  | right h | position h | arms h => exact .inr (.check (runs_checkExpr h) .done)
  | surplusArgs h | otherLooseArgs h => exact .inr (.check (runs_attempt h) .done)
  | callee h =>
      exact .inr (.run h (fun frame => .atSome (rejectTypeCallee_keeps frame.toFrame _)) .done)
  | object h =>
      exact .inr (.run h (fun frame => .atSome (namedModule_keeps frame.toFrame _)) .done)
  | inits h hfields =>
      exact .inr (.run h (fun frame => .atSome (.lookup frame.toFrame _ _)) .done)
  | addressOf h hname =>
      exact .inr (.run h (fun frame => .atSome (requireUnsafe_keeps frame.toFrame _ _)) .done)
  | placePosition h =>
      exact .inr (.run h (fun frame => .atSome (checkPlace_keeps frame.toExprFrame _ s)) .done)
  | init hinit h | moduleInit hinit h =>
      exact .inr (.run h (fun frame => .atSome (declaredType_keeps frame.toFrame _)) .done)
  | assigned h =>
      exact .inr (.run h (fun frame => .atSome (assignTarget_keeps frame.toExprFrame _)) .done)
  | otherStmts h =>
      refine .inr (.run h (fun frame => ?_) .done)
      exact .atSome (.reporting frame.toFrame (checkStmt_keeps frame.toStmtFrame _ s))
  | otherArms h =>
      refine .inr (.run h (fun frame => ?_) .done)
      exact .atSome (.withScope frame.toBlockFrame (arm_keeps frame.toStmtFrame _ _ _ _ _))
  | otherItems h =>
      rw [Task.enclosures_items]
      refine .inr (.run h (fun frame => ?_) .done)
      exact .reportingSome frame.toFrame (checkItem_keeps frame _)
  -- several checks come before the part
  | args hcallee hty harity =>
      refine .inr (leads_callee hcallee (.run harity (fun frame => ?_) .done))
      exact .atSome (.require frame.toFrame rfl)
  | looseArgs hcallee hty => exact .inr (leads_callee hcallee .done)
  | readAddress h | writeAddress h => exact .inr (leads_rawType h .done)
  | written h =>
      obtain ⟨_, u, hmode, h⟩ := bind_eq_ok h
      obtain ⟨_, v, htype, h⟩ := bind_eq_ok h
      obtain ⟨_, w, haddress, hexpect⟩ := bind_eq_ok h
      refine .inr (.run hmode (fun frame => .atSome (requireUnsafe_keeps frame.toFrame _ _)) ?_)
      refine .run htype (fun frame => .atSome (rawType_keeps frame.toFrame _ _ _)) ?_
      refine .check (runs_checkExpr haddress) ?_
      exact .run hexpect (fun frame => .atSome (expectAddress_keeps frame.toFrame _ _)) .done
  | otherArgs h =>
      obtain ⟨found, u, hattempt, hpass⟩ := bind_eq_ok h
      refine .inr (.check (runs_attempt hattempt) (.run hpass (fun frame => ?_) .done))
      exact .atSome (passArgument_keeps frame.toExprFrame (usable_of_attempt hattempt))
  | initsAfterRepeated h hseen =>
      obtain ⟨_, u, hattempt, hreport⟩ := bind_eq_ok h
      refine .inr (.check (runs_attempt hattempt) (.run hreport (fun frame => ?_) .done))
      exact .atSome (.report frame.toFrame rfl)
  | otherInits h hseen =>
      obtain ⟨found, u, hattempt, hinit⟩ := bind_eq_ok h
      refine .inr (.check (runs_attempt hattempt) (.run hinit (fun frame => ?_) .done))
      exact .atSome (initField_keeps frame.toExprFrame (usable_of_attempt hattempt))
  | otherwise h =>
      obtain ⟨_, u, hcondition, hbody⟩ := bind_eq_ok h
      refine .inr (.check (runs_condition hcondition) (.run hbody (fun frame => ?_) .done))
      exact .atSome (.withScope frame.toBlockFrame (checkStmts_keeps frame.toStmtFrame _ _))
  -- the part stands in a scope, a mode, a loop or a routine
  | branchBody h => exact .inr (.check (runs_condition h) (.scope .done))
  | loopBody h => exact .inr (.check (runs_condition h) (.loop (.scope .done)))
  | forBody hitems hty hbinding =>
      refine .inr (.check (runs_checkExpr hitems) (.scope ?_))
      refine .run hbinding (fun frame => ?_) (.loop .done)
      exact .atSome (.reporting frame.toFrame (.declare frame.toBlockFrame _))
  | block => exact .inr (.scope .done)
  | danger h | mayhem h =>
      refine .inr (.run h (fun frame => ?_) (.mode (.scope .done)))
      exact .atSome (requireUnsafeBlocks_keeps frame.toFrame _ _)
  | guard h =>
      refine .inr (.scope (.run h (fun frame => ?_) (.mode .done)))
      exact .atSome (checkPattern_keeps frame.toBlockFrame _ _)
  | armBody h =>
      obtain ⟨_, u, hpattern, hguard⟩ := bind_eq_ok h
      refine .inr (.scope (.run hpattern (fun frame => ?_) (.run hguard (fun frame => ?_) .done)))
      · exact .atSome (checkPattern_keeps frame.toBlockFrame _ _)
      · exact .atSome (checkGuard_keeps frame.toBlockFrame _)
  | @routineBody routine _ _ _ _ _ _ _ hbody hroutine hparams =>
      refine .inr (.run hroutine (fun frame => .atSome (declareRoutine_keeps frame.toStmtFrame _)) ?_)
      have hdeclared : ∀ {enclosures after},
          Leads env enclosures _ after → Leads env (.routine :: enclosures) _ after :=
        fun hrest => .routine (.scope (.run hparams
          (fun frame => .atSome (declareParams_keeps frame.toStmtFrame _ _)) hrest))
      simp only [Task.enclosures]
      split
      · exact hdeclared (.mode .done)
      · exact hdeclared .done

end

/-! ### Invariants -/

/-- A property of states that every completed check keeps, by way of the frame `R`, and that stays
true on the way into a scope, an access, a mode, a loop and a routine. -/
structure Invariant (env : Env) (R : Nat → State → State → Prop) (P : State → Prop) : Prop where
  frame : DeclFrame env R
  keep : ∀ {n s t}, P s → R n s t → P t
  scope : ∀ {s}, P s → P s.openScope
  access : ∀ {kind source token s opened t}, Opened kind source token s opened t → P s → P t
  mode : ∀ {s mode}, P s → P (s.enterMode mode)
  loop : ∀ {s}, P s → P { s with loops := s.loops + 1 }
  routine : ∀ {s result}, P s → P { s with result := some result, loops := 0 }

namespace Invariant

variable {env : Env} {R : Nat → State → State → Prop} {P : State → Prop} {s t : State}
  {task part : Task}

theorem leads {enclosures : List Enclosure} (inv : Invariant env R P)
    (h : Leads env enclosures s t) (hs : P s) : P t := by
  induction h with
  | done => exact hs
  | check hrun hrest ih =>
      obtain ⟨n, hn⟩ := hrun R inv.frame
      exact ih (inv.keep hs hn)
  | scope hrest ih => exact ih (inv.scope hs)
  | mode hrest ih => exact ih (inv.mode hs)
  | loop hrest ih => exact ih (inv.loop hs)
  | routine hrest ih => exact ih (inv.routine hs)

theorem visits (inv : Invariant env R P) (h : Visits env task s part t) (hs : P s) : P t := by
  rcases h.leads with ⟨_, _, _, _, hopened, -⟩ | hleads
  · exact inv.access hopened hs
  · exact inv.leads hleads hs

end Invariant

theorem invariant_sound (env : Env) : Invariant env (Keeping Symbol.Revised) State.Sound where
  frame := declFrame_keeping
  keep hs h := (h hs).sound hs
  scope hs := hs.openScope
  access h hs := h.sound hs
  mode hs := hs
  loop hs := hs
  routine hs := hs

/-- Completed checks leave no trace in the surroundings: they are what has been entered. -/
theorem Leads.surroundings {env : Env} {enclosures : List Enclosure} {s t : State}
    (h : Leads env enclosures s t) (hs : s.Sound) :
    t.ledger = s.ledger ∧
      (∀ mode, t.modes.count mode = s.modes.count mode + enclosures.count (.mode mode)) ∧
      (.routine ∉ enclosures →
        t.loops = s.loops + enclosures.count .loop ∧ t.result = s.result) := by
  induction h with
  | done => simp
  | check hrun hrest ih =>
      obtain ⟨n, hkeeping⟩ := hrun _ declFrame_keeping
      have hkept := hkeeping hs
      obtain ⟨hledger, hmodes, hroutine⟩ := ih (hkept.sound hs)
      rw [hkept.ledger] at hledger
      rw [hkept.modes] at hmodes
      rw [hkept.loops, hkept.result] at hroutine
      exact ⟨hledger, hmodes, hroutine⟩
  | scope hrest ih => exact ih hs.openScope
  | @mode _ s t entered hrest ih =>
      obtain ⟨hledger, hmodes, hroutine⟩ := ih hs
      refine ⟨hledger, fun mode => ?_, fun hnot => hroutine (List.not_mem_of_not_mem_cons hnot)⟩
      rw [hmodes, State.enterMode, Modes.count_enter, List.count_cons]
      simp only [beq_iff_eq, Enclosure.mode.injEq]
      omega
  | loop hrest ih =>
      obtain ⟨hledger, hmodes, hroutine⟩ := ih hs
      refine ⟨hledger, by simpa using hmodes, fun hnot => ?_⟩
      obtain ⟨hloops, hresult⟩ := hroutine (List.not_mem_of_not_mem_cons hnot)
      refine ⟨?_, hresult⟩
      rw [hloops, List.count_cons_self]
      exact Nat.add_right_comm _ 1 _
  | routine hrest ih =>
      obtain ⟨hledger, hmodes, -⟩ := ih hs
      exact ⟨hledger, by simpa using hmodes, by simp⟩

end Check

/-! ### Analyses -/

namespace Program

/-- The item together with what a loader without memory answers. -/
def answer (load : String → Except LoadError Module) : Item → LinkedItem
  | .load request => .load request (load request.path)
  | .decl decl => .decl decl

theorem link_pure (load : String → Except LoadError Module) (language : Language)
    (program : Program) :
    Id.run (program.link (fun path => pure (load path)) language) =
      { prelude := language.prelude.map fun path => (path, load path)
        items := program.map (answer load) } := by
  have hitem : linkItem (fun path => (pure (load path) : Id _)) =
      fun item => pure (answer load item) := by
    funext item
    cases item <;> rfl
  have hrequest : (fun path => do
      let answer ← (pure (load path) : Id _)
      return (path, answer)) = fun path => (pure (path, load path) : Id _) := rfl
  rw [link, hitem, hrequest, List.mapM_pure, List.mapM_pure]
  rfl

theorem exists_of_mem_mapM {σ α β : Type} {f : α → StateM σ β} {items : List α} {memory : σ} {b : β}
    (h : b ∈ (items.mapM f memory).1) : ∃ a ∈ items, ∃ between, (f a between).1 = b := by
  induction items generalizing memory with
  | nil => cases h
  | cons a items ih =>
      rw [List.mapM_cons] at h
      rcases List.mem_cons.1 h with rfl | h
      · exact ⟨a, List.mem_cons_self, memory, rfl⟩
      · obtain ⟨other, hother, hrun⟩ := ih h
        exact ⟨other, List.mem_cons_of_mem _ hother, hrun⟩

end Program

namespace Linked

open Check

/-- The surroundings in which a program is checked. -/
def env (linked : Linked) (settings : Settings) : Env :=
  ⟨settings.language, linked.modules⟩

/-- The state in which the items of a program are checked: the prelude has been declared, and the
scope of the program is open. -/
def start (linked : Linked) (settings : Settings) : State :=
  (loadPrelude settings.toleratesMissingPrelude linked.prelude (linked.env settings)
    initial).2.openScope

/-- The pieces of a program that its analysis checks, with the state it has reached then. -/
inductive Visited (settings : Settings) (linked : Linked) : Task → State → Prop
  | start : Visited settings linked (.items linked.items) (linked.start settings)
  | visit {task s part t} (htask : Visited settings linked task s)
      (hpart : Visits (linked.env settings) task s part t) : Visited settings linked part t

/-- The analysis of a program reaches the state `s`. -/
def Reachable (settings : Settings) (linked : Linked) (s : State) : Prop :=
  ∃ task, Visited settings linked task s

variable {settings : Settings} {linked : Linked} {s : State}

theorem declarePrelude_ok (symbols : List Symbol) (env : Env) (s : State) :
    (declarePrelude symbols env s).1 = .ok () := by
  induction symbols generalizing s with
  | nil => rfl
  | cons symbol symbols ih => exact ih _

/-- A prelude that cannot be loaded does not cut the analysis short. -/
theorem loadPrelude_ok (tolerant : Bool) (prelude : List (String × Except LoadError Module))
    (env : Env) (s : State) : (loadPrelude tolerant prelude env s).1 = .ok () := by
  induction prelude generalizing s with
  | nil => rfl
  | cons entry prelude ih =>
      rw [loadPrelude]
      rcases entry with ⟨path, cause | loaded⟩
      · show ((require tolerant _ _ >>= _) env s).1 = _
        rw [bind_of_ok (require_ok _ _ _ env s)]
        exact ih _
      · show ((declarePrelude _ >>= _) env s).1 = _
        rw [bind_of_ok (declarePrelude_ok _ env s)]
        exact ih _

/-- An analysis ends as the check of the items does. -/
theorem checkLinked_eq (settings : Settings) (linked : Linked) :
    checkLinked settings.toleratesMissingPrelude linked (linked.env settings) initial =
      checkItems linked.items (linked.env settings) (linked.start settings) := by
  rw [checkLinked, bind_of_ok (loadPrelude_ok _ _ _ _)]
  rfl

theorem analyze_eq (settings : Settings) (linked : Linked) :
    linked.analyze settings =
      let final := (checkItems linked.items (linked.env settings) (linked.start settings)).2
      { diagnostics := final.diagnostics, table := final.table, modules := linked.modules } := by
  rw [← checkLinked_eq]
  rfl

/-- Where it is tolerated, a prelude that cannot be loaded leaves nothing. -/
theorem loadPrelude_of_missing {prelude : List (String × Except LoadError Module)}
    (h : prelude.filterMap (·.2.toOption) = []) (env : Env) (s : State) :
    (loadPrelude true prelude env s).2 = s := by
  induction prelude with
  | nil => rfl
  | cons entry prelude ih =>
      rcases entry with ⟨path, cause | loaded⟩
      · exact ih h
      · cases h

theorem start_of_missing {language : Language}
    (h : linked.prelude.filterMap (·.2.toOption) = []) :
    linked.start ⟨language, true⟩ = initial.openScope :=
  congrArg State.openScope (loadPrelude_of_missing h _ _)

theorem kept_loadPrelude (settings : Settings) (linked : Linked) :
    AtSome (State.Kept Symbol.Revised) initial
      (loadPrelude settings.toleratesMissingPrelude linked.prelude (linked.env settings) initial).2 := by
  obtain ⟨n, hn⟩ := (loadPrelude_keeps (declFrame_keeping).toStmtFrame
    settings.toleratesMissingPrelude linked.prelude (initial : State)).left
  exact ⟨n, hn Ledger.within_empty⟩

theorem sound_start (settings : Settings) (linked : Linked) : (linked.start settings).Sound := by
  obtain ⟨n, hkept⟩ := kept_loadPrelude settings linked
  exact (hkept.sound Ledger.within_empty).openScope

theorem Reachable.of_invariant {R : Nat → State → State → Prop} {P : State → Prop}
    (inv : Invariant (linked.env settings) R P) (hstart : P (linked.start settings))
    (h : Reachable settings linked s) : P s := by
  obtain ⟨task, h⟩ := h
  induction h with
  | start => exact hstart
  | visit htask hpart ih => exact inv.visits hpart ih

theorem Reachable.sound (h : Reachable settings linked s) : s.Sound :=
  h.of_invariant (invariant_sound _) (sound_start settings linked)

/-- A program with a routine that views its variable `x` as `v`. -/
def viewing : Linked where
  prelude := []
  items := [.decl (.routine {
    span := {}
    name := ⟨"f", {}⟩
    params := []
    result := none
    body := some
      [.var {} { name := ⟨"x", {}⟩, mutable := false, init := some (.literal {} (.int 1 none)) },
        .access {} .viewing ⟨"x", {}⟩ ⟨"v", {}⟩ []] })]

/-- The state in which the body of the access in `viewing` is checked. -/
def viewed : State :=
  let x : Symbol := { Symbol.var "x" (.num .s64) false {} with depth := 2 }
  let v : Symbol := { Symbol.var "v" (.token .viewing (.num .s64)) false {} with depth := 3 }
  let f : Symbol := { Symbol.routine "f" (.routine [] .blank) false {} with depth := 1 }
  { table := { root := Table.builtins, inner := [[v], [x], [f]] }
    ledger :=
      { tokens := [⟨⟨"v", 3⟩, ⟨"x", 2⟩, .viewing, {}⟩]
        holds := [(⟨"x", 2⟩, [⟨⟨"v", 3⟩, .viewing⟩])] }
    result := some .blank }

theorem reachable_viewed : Reachable {} viewing viewed :=
  ⟨_, .visit (.visit (.visit (.visit .start (.routineBody rfl rfl rfl)) (.otherStmts rfl))
    .firstStmt) (.accessBody rfl)⟩

end Linked

end Custody
