import Custody.Proofs.Check.Parts
import Custody.Proofs.Check.Visit

/-! Checking with the context handed down. The check of a piece is told the context of its place, and
hands to each part the context that is read off the piece and the part, whatever the state has come to
hold. This is no other check: along every check the context in the state is the one handed down. -/

namespace Custody

/-- The type that a routine returns if this is written in its declaration. -/
def Table.returned (table : Table) : Option TypeExpr → Ty
  | none => .blank
  | some type =>
      match table.resolve type with
      | .ok ty => ty
      | .error _ => .unknown

/-- What a check may ask of the place where it is made. -/
structure Context where
  loops : Nat := 0
  modes : Modes := {}
  result : Option Ty := none

namespace State

def context (s : State) : Context :=
  ⟨s.loops, s.modes, s.result⟩

def inContext (s : State) (context : Context) : State :=
  { s with loops := context.loops, modes := context.modes, result := context.result }

@[simp] theorem inContext_context (s : State) : s.inContext s.context = s := rfl

@[simp] theorem context_inContext (s : State) (context : Context) :
    (s.inContext context).context = context := rfl

@[simp] theorem inContext_inContext (s : State) (context other : Context) :
    (s.inContext context).inContext other = s.inContext other := rfl

end State

theorem Modes.ext_count {modes other : Modes} (h : ∀ mode, modes.count mode = other.count mode) :
    modes = other := by
  cases modes
  cases other
  simp only [Modes.mk.injEq]
  exact ⟨h .danger, h .mayhem, h .whenGuard, h .usurping⟩

namespace Check

variable {α : Type} {env : Env} {s t : State} {task part : Task}

/-! ### Routines -/

theorem frame_table_eq : Frame fun _ s t => t.table = s.table where
  refl _ := rfl
  trans hst htu := htu.trans hst
  weaken _ h := h
  report _ := rfl

theorem resultType_eq {type : Option TypeExpr} {result : Ty}
    (h : resultType type env s = (.ok result, t)) : result = s.table.returned type := by
  cases type with
  | none =>
      cases h
      rfl
  | some type =>
      simp only [resultType, typeOrUnknown, bind_apply, attempt, rule] at h
      cases hresolve : s.table.resolve type <;> simp only [hresolve] at h <;> cases h <;>
        simp [Table.returned, hresolve]

/-- What a routine returns is resolved in the table in front of its declaration. -/
theorem declareRoutine_returned {routine : Routine} {params : List Ty} {result : Ty}
    (h : declareRoutine routine env s = (.ok (params, result), t)) :
    result = s.table.returned routine.result := by
  obtain ⟨language, _, hlanguage, h⟩ := bind_eq_ok h
  cases hlanguage
  obtain ⟨_, u, hrequire, h⟩ := bind_eq_ok h
  obtain ⟨tys, v, hparams, h⟩ := bind_eq_ok h
  obtain ⟨ty, w, hresult, h⟩ := bind_eq_ok h
  obtain ⟨_, _, -, hpure⟩ := bind_eq_ok h
  cases hpure
  have hu : u.table = s.table := by
    refine Keeps.related (R := fun s t => t.table = s.table) (.require frame_table_eq ?_) hrequire
    rfl
  have hv := (paramTypes_keeps frame_table_eq routine.params u).related hparams
  rw [resultType_eq hresult, hv, hu]

/-- In front of the first statement of a routine, no loop is open. -/
theorem Visits.routine_body {routine : Routine} {items : List LinkedItem} {body : List Stmt}
    (h : Visits env (.items (.decl (.routine routine) :: items)) s (.stmts body) t) (hs : s.Sound) :
    t.loops = 0 ∧ t.result = some (s.table.returned routine.result) := by
  cases h with
  | @routineBody _ _ _ _ params result v u hbody hroutine hparams =>
      have hv := (declareRoutine_keeps declFrame_keeping.toStmtFrame routine).related hroutine
      have hinside : State.Sound ({ v with result := some result, loops := 0 } : State).openScope :=
        State.Sound.openScope ((hv hs).sound hs)
      have hu := (declareParams_keeps declFrame_keeping.toStmtFrame (routine.params.zip params)
        _).related hparams hinside
      have hresult : u.result = some (s.table.returned routine.result) := by
        rw [hu.result, ← declareRoutine_returned hroutine]
        rfl
      split
      · exact ⟨hu.loops, hresult⟩
      · exact ⟨hu.loops, hresult⟩

theorem routine_mem_enclosures (h : .routine ∈ task.enclosures part) :
    ∃ routine items body, task = .items (.decl (.routine routine) :: items) ∧
      part = .stmts body := by
  unfold Task.enclosures at h
  split at h <;> simp_all

/-! ### The context of a part -/

/-- What the routine that a piece begins with returns. -/
def Task.returned (table : Table) : Task → Ty
  | .items (.decl (.routine routine) :: _) => table.returned routine.result
  | _ => .blank

/-- One step inwards, in a piece whose routine returns `returned`. -/
def Enclosure.enter (returned : Ty) (context : Context) : Enclosure → Context
  | .mode entered => { context with modes := context.modes.enter entered }
  | .loop => { context with loops := context.loops + 1 }
  | .routine => { context with loops := 0, result := some returned }

/-- The context of a part, from that of the piece and the table in front of it. -/
def Task.contextOf (task part : Task) (table : Table) (context : Context) : Context :=
  (task.enclosures part).foldl (Enclosure.enter (task.returned table)) context

section Fold

variable (returned : Ty) {enclosures : List Enclosure} (context : Context)

theorem count_foldl_enter (mode : Mode) :
    (enclosures.foldl (Enclosure.enter returned) context).modes.count mode =
      context.modes.count mode + enclosures.count (.mode mode) := by
  induction enclosures generalizing context with
  | nil => rfl
  | cons enclosure enclosures ih =>
      rw [List.foldl_cons, ih, List.count_cons]
      cases enclosure with
      | mode other =>
          simp only [Enclosure.enter, Modes.count_enter, beq_iff_eq, Enclosure.mode.injEq]
          omega
      | loop | routine => simp [Enclosure.enter]

theorem foldl_enter_of_not_mem (h : .routine ∉ enclosures) :
    (enclosures.foldl (Enclosure.enter returned) context).loops =
        context.loops + enclosures.count .loop ∧
      (enclosures.foldl (Enclosure.enter returned) context).result = context.result := by
  induction enclosures generalizing context with
  | nil => exact ⟨rfl, rfl⟩
  | cons enclosure enclosures ih =>
      obtain ⟨hloops, hresult⟩ := ih (enclosure.enter returned context)
        (List.not_mem_of_not_mem_cons h)
      rw [List.foldl_cons, hloops, hresult, List.count_cons]
      cases enclosure with
      | mode mode => simp [Enclosure.enter]
      | loop =>
          refine ⟨?_, rfl⟩
          simp only [Enclosure.enter, beq_self_eq_true, if_true]
          omega
      | routine => exact absurd List.mem_cons_self h

end Fold

/-- A part is checked in its context. -/
theorem Visits.context_eq (h : Visits env task s part t) (hs : s.Sound) :
    t.context = task.contextOf part s.table s.context := by
  rcases h.leads with ⟨_, _, _, _, hopened, hnone⟩ | hleads
  · rw [Task.contextOf, hnone]
    cases hopened <;> rfl
  · obtain ⟨-, hcounts, hrest⟩ := hleads.surroundings hs
    have hmodes : t.modes = (task.contextOf part s.table s.context).modes :=
      Modes.ext_count fun mode => by rw [hcounts, Task.contextOf, count_foldl_enter]; rfl
    have hothers : t.loops = (task.contextOf part s.table s.context).loops ∧
        t.result = (task.contextOf part s.table s.context).result := by
      by_cases hroutine : .routine ∈ task.enclosures part
      · obtain ⟨routine, items, body, rfl, rfl⟩ := routine_mem_enclosures hroutine
        obtain ⟨hloops, hresult⟩ := h.routine_body hs
        rw [hloops, hresult, Task.contextOf, Task.enclosures]
        split <;> exact ⟨rfl, rfl⟩
      · obtain ⟨hloops, hresult⟩ := hrest hroutine
        obtain ⟨hloops', hresult'⟩ :=
          foldl_enter_of_not_mem (task.returned s.table) s.context hroutine
        exact ⟨hloops.trans hloops'.symm, hresult.trans hresult'.symm⟩
    show (⟨t.loops, t.modes, t.result⟩ : Context) = _
    rw [hmodes, hothers.1, hothers.2]

/-! ### Checking in a context -/

/-- The size of what is written in a piece. -/
noncomputable def Task.size : Task → Nat
  | .expr e _ | .place e => sizeOf e
  | .args es _ | .looseArgs es => sizeOf es
  | .inits _ _ values _ => sizeOf values
  | .stmt first => sizeOf first
  | .stmts body => sizeOf body
  | .arms _ cases => sizeOf cases
  | .items program => sizeOf program

theorem sizeOf_init_lt {decl : VarDecl} {init : Expr} (h : decl.init = some init) :
    sizeOf init < sizeOf decl := by
  cases decl
  subst h
  simp
  omega

theorem sizeOf_body_lt {routine : Routine} {body : List Stmt} (h : routine.body = some body) :
    sizeOf body < sizeOf routine := by
  cases routine
  subst h
  simp
  omega

theorem Visits.size_lt (h : Visits env task s part t) : part.size < task.size := by
  cases h with
  | init hinit htype =>
      have := sizeOf_init_lt hinit
      simp [Task.size]
      omega
  | moduleInit hinit htype =>
      have := sizeOf_init_lt hinit
      simp [Task.size]
      omega
  | routineBody hbody hroutine hparams =>
      have := sizeOf_body_lt hbody
      simp [Task.size]
      omega
  | _ => simp +arith [Task.size]

/-- The check of a piece in the context of its place. Each part is checked in the context that is read
off the piece and the part; what the state holds as its context is not looked at and stays. -/
noncomputable def Task.checkIn (task : Task) (context : Context) : Check task.Result := fun env s =>
  let run := task.checkBy (fun part =>
    if _h : part.size < task.size then part.checkIn (task.contextOf part s.table context)
    else fail (.scopesBroken .underflow) {}) env (s.inContext context)
  (run.1, run.2.inContext s.context)
termination_by task.size

theorem Task.checkIn_inContext (task : Task) (context other : Context) (env : Env) (s : State) :
    task.checkIn context env (s.inContext other) =
      ((task.checkIn context env s).1, (task.checkIn context env s).2.inContext other) := by
  rw [Task.checkIn, Task.checkIn]
  rfl

theorem Task.check_keeps {R : Nat → State → State → Prop} (frame : DeclFrame env R) (task : Task)
    (s : State) : Keeps env (AtSome R) task.check s := by
  cases task with
  | expr expr use => exact .atSome (checkExpr_keeps frame.toExprFrame expr use s)
  | args args params => exact .atSome (checkArgs_keeps frame.toExprFrame args params s)
  | looseArgs args => exact .atSome (checkLooseArgs_keeps frame.toExprFrame args s)
  | inits owner fields inits seen =>
      exact .atSome (checkInits_keeps frame.toExprFrame owner fields inits seen s)
  | place place => exact .atSome (checkPlace_keeps frame.toExprFrame place s)
  | stmt stmt => exact .atSome (checkStmt_keeps frame.toStmtFrame stmt s)
  | stmts stmts => exact .atSome (checkStmts_keeps frame.toStmtFrame stmts s)
  | arms subject arms => exact .atSome (checkArms_keeps frame.toStmtFrame subject arms s)
  | items items => exact checkItems_keeps frame items s

/-- A check leaves the context that it finds. -/
theorem Task.context_check (task : Task) (env : Env) (hs : s.Sound) :
    (task.check env s).2.context = s.context := by
  obtain ⟨n, hkeeping⟩ := (task.check_keeps (declFrame_keeping : DeclFrame env _) s).left
  have hkept := hkeeping hs
  unfold State.context
  rw [hkept.loops, hkept.modes, hkept.result]

/-- The check of a piece is the one in the context that the state holds. -/
theorem Task.checkIn_context (task : Task) (env : Env) {s : State} (hs : s.Sound) :
    task.checkIn s.context env s = task.check env s := by
  rw [Task.checkIn, State.inContext_context, Task.checkBy_at]
  · rw [← task.context_check env hs]
    rfl
  · -- each part is visited in its own context, and it is smaller
    intro part t hpart
    have hlt := hpart.size_lt
    have ht : t.Sound := (invariant_sound env).visits hpart hs
    rw [dif_pos hlt, ← hpart.context_eq hs]
    exact part.checkIn_context env ht
termination_by task.size

end Check

end Custody
