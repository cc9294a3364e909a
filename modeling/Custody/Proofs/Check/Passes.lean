import Custody.Proofs.Check.Kept

/-! Checks that pass: they are not cut short and report nothing. Diagnostics are only added, so a check
passes if and only if its steps pass one after the other. -/

namespace Custody.Check

variable {α β : Type} {env : Env} {m n : Nat} {s t u : State} {span : Span} {fault : Fault}

/-- The check has the value `a`, leaves the state `t` and reports nothing. -/
def Passes (env : Env) (check : Check α) (s : State) (a : α) (t : State) : Prop :=
  check env s = (.ok a, t) ∧ t.diagnostics = s.diagnostics

/-- Diagnostics are only added. -/
def Growing (_ : Nat) (s t : State) : Prop :=
  s.diagnostics <+: t.diagnostics

theorem frame_growing : Frame Growing where
  refl _ := List.prefix_rfl
  trans hst htu := hst.trans htu
  weaken _ hst := hst
  report _ := List.prefix_append _ _

theorem exprFrame_growing : ExprFrame env Growing where
  toFrame := frame_growing
  move _ _ _ _ := List.prefix_rfl
  access hopened htu := (hopened.diagnostics_le.trans htu).trans (diagnostics_le_endAccess _ _ _)

theorem stmtFrame_growing : StmtFrame env Growing where
  toExprFrame := exprFrame_growing
  declare _ := List.prefix_rfl
  revive _ _ := List.prefix_rfl
  scope hst := hst.trans (diagnostics_le_closeScope _ _)
  mode hst := hst
  loop hst := hst

/-! ### Steps -/

theorem passes_pure {a b : α} : Passes env (pure a) s b t ↔ a = b ∧ t = s := by
  constructor
  · rintro ⟨hrun, -⟩
    cases hrun
    exact ⟨rfl, rfl⟩
  · rintro ⟨rfl, rfl⟩
    exact ⟨rfl, rfl⟩

theorem not_passes_fail {a : α} : ¬ Passes env (fail fault span) s a t := by
  rintro ⟨hrun, -⟩
  cases hrun

theorem not_passes_report {a : Unit} : ¬ Passes env (report fault span) s a t := by
  rintro ⟨hrun, hsame⟩
  cases hrun
  exact absurd (congrArg List.length hsame) (by simp [State.report])

theorem passes_require {condition : Bool} {a : Unit} :
    Passes env (require condition fault span) s a t ↔ condition = true ∧ t = s := by
  cases condition with
  | true => simp [require, passes_pure]
  | false => simp [require, not_passes_report]

theorem passes_judge {verdict : Except Fault α} {a : α} :
    Passes env (judge verdict span) s a t ↔ verdict = .ok a ∧ t = s := by
  cases verdict with
  | ok b => simp [judge, passes_pure]
  | error cause => simp [judge, not_passes_fail]

theorem passes_state {next : State → Check α} {a : α} :
    Passes env (state >>= next) s a t ↔ Passes env (next s) s a t :=
  Iff.rfl

theorem passes_depth {next : Nat → Check α} {a : α} :
    Passes env (depth >>= next) s a t ↔ Passes env (next s.depth) s a t :=
  Iff.rfl

theorem Passes.bind {check : Check α} {next : α → Check β} {a : α} {b : β}
    (h : Passes env check s a t) (hnext : Passes env (next a) t b u) :
    Passes env (check >>= next) s b u := by
  refine ⟨?_, hnext.2.trans h.2⟩
  rw [bind_apply, h.1]
  exact hnext.1

/-- A sequence passes if and only if its parts do. -/
theorem passes_bind {check : Check α} {next : α → Check β} {b : β}
    (hcheck : Keeps env (Growing m) check s)
    (hnext : ∀ a t, check env s = (.ok a, t) → Keeps env (Growing n) (next a) t) :
    Passes env (check >>= next) s b u ↔
      ∃ a t, Passes env check s a t ∧ Passes env (next a) t b u := by
  constructor
  · rintro ⟨hrun, hsame⟩
    obtain ⟨a, t, hfirst, hrest⟩ := bind_eq_ok hrun
    obtain ⟨hfirstSame, hrestSame⟩ := (eq_iff_of_prefixes (hcheck.related hfirst)
      ((hnext a t hfirst).related hrest)).1 hsame
    exact ⟨a, t, ⟨hfirst, hfirstSame⟩, hrest, hrestSame⟩
  · rintro ⟨a, t, hfirst, hrest⟩
    exact hfirst.bind hrest

/-- What reports something does not pass, whatever comes next. -/
theorem not_passes_report_bind {next : Unit → Check β} {b : β} (hfault : fault.OfProgram)
    (hnext : ∀ t, Keeps env (Growing n) (next ()) t) :
    ¬ Passes env (report fault span >>= next) s b u := by
  rw [passes_bind (.report frame_growing hfault) fun _ t _ => hnext t]
  rintro ⟨_, _, hreport, -⟩
  exact not_passes_report hreport

/-- A check that may be cut short passes if and only if it is not and reports nothing. -/
theorem passes_attempt {check : Check α} {found : Option α}
    (hcheck : Keeps env (Growing m) check s) :
    Passes env (attempt check) s found t ↔ ∃ a, found = some a ∧ Passes env check s a t := by
  rcases hrun : check env s with ⟨cause | a, left⟩
  · have hattempt : attempt check env s = (.ok none, left.report cause) := by
      rw [attempt, hrun]
    have hgrown : s.diagnostics.length ≤ left.diagnostics.length :=
      (hcheck.related hrun).length_le
    constructor
    · rintro ⟨heq, hsame⟩
      rw [hattempt] at heq
      cases heq
      have hlength := congrArg List.length hsame
      simp only [State.report, List.length_append, List.length_singleton] at hlength
      omega
    · rintro ⟨a, -, heq, -⟩
      rw [hrun] at heq
      cases heq
  · have hattempt : attempt check env s = (.ok (some a), left) := by
      rw [attempt, hrun]
    constructor
    · rintro ⟨heq, hsame⟩
      rw [hattempt] at heq
      cases heq
      exact ⟨a, rfl, hrun, hsame⟩
    · rintro ⟨b, rfl, heq, hsame⟩
      rw [hrun] at heq
      cases heq
      exact ⟨hattempt, hsame⟩

/-- Taking a value over is silent. -/
theorem exists_passes_takeOver (value : Expr) (env : Env) (s : State) :
    ∃ t, Passes env (takeOver value) s () t := by
  rcases takeOver_apply value env s with hrun | ⟨_, _, -, -, -, -, hrun⟩
  · exact ⟨_, hrun, rfl⟩
  · exact ⟨_, hrun, rfl⟩

theorem exists_passes_revive (target : Expr) (env : Env) (s : State) :
    ∃ t, Passes env (revive target) s () t := by
  rcases revive_apply target env s with hrun | ⟨_, _, -, -, -, hrun⟩
  · exact ⟨_, hrun, rfl⟩
  · exact ⟨_, hrun, rfl⟩

end Custody.Check
