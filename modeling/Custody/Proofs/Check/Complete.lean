import Custody.Analysis
import Custody.Proofs.Check.Expr

/-! Checks that are not cut short. What is wrong with a type, a value or the body of a block is
reported where it stands, so that the check around it goes on. -/

namespace Custody.Check

variable {α β : Type}

/-- Whatever is wrong, the check has a value. -/
def Completes (check : Check α) : Prop :=
  ∀ env s, ∃ a, (check env s).1 = .ok a

namespace Completes

theorem run {check : Check Unit} (h : Completes check) (env : Env) (s : State) :
    check env s = (.ok (), (check env s).2) := by
  obtain ⟨⟨⟩, ha⟩ := h env s
  exact Prod.ext ha rfl

theorem pure (a : α) : Completes (Pure.pure a) :=
  fun _ _ => ⟨a, rfl⟩

theorem bind {check : Check α} {next : α → Check β} (h : Completes check)
    (hnext : ∀ a, Completes (next a)) : Completes (check >>= next) := by
  intro env s
  obtain ⟨a, ha⟩ := h env s
  rw [bind_of_ok ha]
  exact hnext a env _

theorem attempt (check : Check α) : Completes (Check.attempt check) := by
  intro env s
  rcases attempt_cases check env s with ⟨a, -, hrun⟩ | ⟨cause, -, hrun⟩
  · exact ⟨some a, by rw [hrun]⟩
  · exact ⟨none, by rw [hrun]⟩

theorem reporting (check : Check Unit) : Completes (Check.reporting check) :=
  (attempt check).bind fun _ => pure ()

theorem require (condition : Bool) (fault : Fault) (span : Span) :
    Completes (Check.require condition fault span) :=
  fun env s => ⟨(), require_ok condition fault span env s⟩

theorem withScope {check : Check α} (h : Completes check) : Completes (Check.withScope check) :=
  fun env s => h env s.openScope

theorem typeOrUnknown (type : TypeExpr) : Completes (Check.typeOrUnknown type) :=
  (attempt _).bind fun _ => pure _

theorem takeOver (value : Expr) : Completes (Check.takeOver value) := by
  intro env s
  rcases takeOver_apply value env s with hrun | ⟨_, _, -, -, -, -, hrun⟩
  · exact ⟨(), by rw [hrun]⟩
  · exact ⟨(), by rw [hrun]⟩

theorem bindDeclared (declared : Ty) (init : Expr) (found : Ty) :
    Completes (Check.bindDeclared declared init found) := by
  intro env s
  unfold Check.bindDeclared
  rw [bind_of_ok (a := s) rfl]
  split
  · exact ⟨_, rfl⟩
  · split
    · exact ⟨_, rfl⟩
    · split
      · exact ⟨_, rfl⟩
      · exact ⟨_, rfl⟩

theorem initType (declared : Option Ty) (init : Expr) : Completes (Check.initType declared init) := by
  refine bind (fun _ s => ⟨s.depth, rfl⟩) fun depth => (attempt _).bind fun found => ?_
  split
  · exact pure _
  · refine (bindDeclared _ _ _).bind fun (ty, owned) => ?_
    cases owned with
    | true => exact (takeOver init).bind fun _ => pure _
    | false => exact pure _
  · exact pure _
  · exact bind (fun env _ => ⟨env.language, rfl⟩) fun _ => (takeOver init).bind fun _ => pure _

/-- Whatever is wrong with the type and the value of a variable, it gets a type. -/
theorem varType (decl : VarDecl) : Completes (Check.varType decl) := by
  have hdeclared : Completes (declaredType decl.type) := by
    unfold declaredType
    split
    · exact (typeOrUnknown _).bind fun _ => pure _
    · exact pure _
  refine hdeclared.bind fun declared => ?_
  split
  · exact initType _ _
  · exact pure _
  · exact bind (fun _ _ => ⟨(), rfl⟩) fun _ => pure _

theorem paramTypes (params : List Param) : Completes (Check.paramTypes params) := by
  induction params with
  | nil => exact pure _
  | cons param params ih => exact (typeOrUnknown _).bind fun _ => ih.bind fun _ => pure _

theorem resultType (type : Option TypeExpr) : Completes (Check.resultType type) := by
  cases type with
  | none => exact pure _
  | some type => exact typeOrUnknown type

theorem declareTypeParams (params : List Ident) : Completes (Check.declareTypeParams params) := by
  induction params with
  | nil => exact pure _
  | cons param params ih => exact (reporting _).bind fun _ => ih

theorem checkFields (fields : List FieldDecl) (done : List (String × Ty)) :
    Completes (Check.checkFields fields done) := by
  induction fields generalizing done with
  | nil => exact pure _
  | cons field fields ih =>
      unfold Check.checkFields
      split
      · exact bind (fun _ _ => ⟨(), rfl⟩) fun _ => ih done
      · exact (typeOrUnknown _).bind fun _ => (require _ _ _).bind fun _ => ih _

theorem checkPattern (pattern : Pattern) (subject : Ty) :
    Completes (Check.checkPattern pattern subject) := by
  cases pattern with
  | otherwise span => exact pure _
  | literal span value => exact require _ _ _
  | binding span name => exact reporting _

theorem checkGuard (guard : Option Expr) : Completes (Check.checkGuard guard) := by
  cases guard with
  | none => exact pure _
  | some condition => exact reporting _

theorem checkStmts (stmts : List Stmt) : Completes (Check.checkStmts stmts) := by
  induction stmts with
  | nil =>
      rw [Check.checkStmts]
      exact pure _
  | cons stmt stmts ih =>
      rw [Check.checkStmts]
      exact (reporting _).bind fun _ => ih

theorem arm (pattern : Pattern) (subject : Ty) (guard : Option Expr) (body : List Stmt) :
    Completes (do
      Check.checkPattern pattern subject
      Check.checkGuard guard
      Check.checkStmts body) :=
  (checkPattern pattern subject).bind fun _ => (checkGuard guard).bind fun _ => checkStmts body

end Completes

end Custody.Check
