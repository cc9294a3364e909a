import Custody.Proofs.Check.Fault

/-! What a check does to the state, put together from its steps. A frame is a relation between the
state before and the state after a check that is closed under sequencing and reports. Its grade
bounds the number of symbols that the innermost scope gains. -/

namespace Custody

/-- What an importer finds in a module stands for a declaration of that module. -/
theorem Env.exists_decl_of_member? (env : Env) {path name : String} {symbol : Symbol}
    (h : env.member? path name = some symbol) : ∃ decl : Decl, decl.symbol env.language = symbol := by
  obtain ⟨loaded, -, hexported⟩ := Option.bind_eq_some_iff.1 h
  obtain ⟨decl, -, hsymbol⟩ := Option.map_eq_some_iff.1 hexported
  exact ⟨decl, hsymbol⟩

namespace Check

variable {α β : Type} {env : Env} {R : Nat → State → State → Prop} {m n : Nat} {s : State}

/-- After a part that is not cut short the rest runs. -/
theorem bind_of_run {check : Check α} {next : α → Check β} {a : α} {t : State}
    (h : check env s = (.ok a, t)) : (check >>= next) env s = next a env t := by
  rw [bind_apply, h]

theorem bind_of_ok {check : Check α} {next : α → Check β} {a : α} (h : (check env s).1 = .ok a) :
    (check >>= next) env s = next a env (check env s).2 :=
  bind_of_run (Prod.ext h rfl)

theorem require_ok (condition : Bool) (fault : Fault) (span : Span) (env : Env) (s : State) :
    (require condition fault span env s).1 = .ok () := by
  unfold require
  split <;> rfl

theorem reporting_ok (check : Check Unit) (env : Env) (s : State) :
    (reporting check env s).1 = .ok () := by
  rcases reporting_cases check env s with hrun | ⟨diagnostic, hrun⟩ <;> rw [hrun]

/-- A name that the innermost scope does not have is declared there. -/
theorem declare_of_free {symbol : Symbol} (h : s.table.current.contains symbol.name = false)
    (env : Env) :
    declare symbol env s =
      (.ok (), { s with table := s.table.append { symbol with depth := s.depth } }) := by
  simp [declare, Table.declare, h, State.depth]

theorem diagnostics_le_closeScope (s : State) (depth : Nat) :
    s.diagnostics <+: (s.closeScope depth).diagnostics := by
  rcases s with ⟨⟨root, inner⟩, ledger, modes, loops, result, diagnostics⟩
  cases inner with
  | nil => exact List.prefix_append _ _
  | cons scope outer => exact List.prefix_refl _

/-- Nothing has been added in two steps if nothing has been added in either. -/
theorem eq_iff_of_prefixes {first second third : List α} (hfirst : first <+: second)
    (hsecond : second <+: third) : third = first ↔ second = first ∧ third = second := by
  constructor
  · rintro rfl
    have heq := hfirst.eq_of_length_le hsecond.length_le
    exact ⟨heq.symm, heq⟩
  · rintro ⟨rfl, rfl⟩
    rfl

/-- Whichever way `check` ends, it leaves a state that `R` relates to the one it starts in, and what
cuts it short is a fault of the program. -/
structure Keeps (env : Env) (R : State → State → Prop) (check : Check α) (s : State) : Prop where
  left : R s (check env s).2
  fault : ∀ diagnostic, (check env s).1 = .error diagnostic → diagnostic.fault.OfProgram

structure Frame (R : Nat → State → State → Prop) : Prop where
  refl : ∀ s, R 0 s s
  trans : ∀ {m n s t u}, R m s t → R n t u → R (m + n) s u
  weaken : ∀ {m n s t}, m ≤ n → R m s t → R n s t
  report : ∀ {s diagnostic}, diagnostic.fault.OfProgram → R 0 s (s.report diagnostic)

namespace Keeps

theorem related {R : State → State → Prop} {check : Check α} {result : Except Diagnostic α}
    {t : State} (h : Keeps env R check s) (hrun : check env s = (result, t)) : R s t := by
  have hleft := h.left
  rw [hrun] at hleft
  exact hleft

theorem weaken (frame : Frame R) {check : Check α} (hmn : m ≤ n) (h : Keeps env (R m) check s) :
    Keeps env (R n) check s :=
  ⟨frame.weaken hmn h.left, h.fault⟩

theorem pure (frame : Frame R) (a : α) : Keeps env (R 0) (Pure.pure a) s :=
  ⟨frame.refl s, fun _ h => by cases h⟩

theorem bind (frame : Frame R) {check : Check α} {next : α → Check β}
    (h : Keeps env (R m) check s)
    (hnext : ∀ a t, check env s = (.ok a, t) → Keeps env (R n) (next a) t) :
    Keeps env (R (m + n)) (check >>= next) s := by
  obtain ⟨hleft, hfault⟩ := h
  rcases hrun : check env s with ⟨cause | a, t⟩
  · have hbind : (check >>= next) env s = (.error cause, t) := by rw [bind_apply, hrun]
    rw [hrun] at hleft hfault
    constructor
    · rw [hbind]
      exact frame.weaken (Nat.le_add_right m n) hleft
    · intro diagnostic h
      rw [hbind] at h
      cases h
      exact hfault cause rfl
  · have hbind : (check >>= next) env s = next a env t := by rw [bind_apply, hrun]
    obtain ⟨hleft', hfault'⟩ := hnext a t hrun
    rw [hrun] at hleft
    constructor
    · rw [hbind]
      exact frame.trans hleft hleft'
    · rw [hbind]
      exact hfault'

/-- The form of `bind` for a first part that declares nothing. -/
theorem seq (frame : Frame R) {check : Check α} {next : α → Check β}
    (h : Keeps env (R 0) check s)
    (hnext : ∀ a t, check env s = (.ok a, t) → Keeps env (R n) (next a) t) :
    Keeps env (R n) (check >>= next) s := by
  have hbind := bind frame h hnext
  rwa [Nat.zero_add] at hbind

/-- The form of `bind` for a rest that declares nothing. -/
theorem followedBy (frame : Frame R) {check : Check α} {next : α → Check β}
    (h : Keeps env (R m) check s)
    (hnext : ∀ a t, check env s = (.ok a, t) → Keeps env (R 0) (next a) t) :
    Keeps env (R m) (check >>= next) s :=
  bind frame h hnext

theorem modify {R : State → State → Prop} {f : State → State} (h : R s (f s)) :
    Keeps env R (Check.modify f) s :=
  ⟨h, fun _ hrun => by cases hrun⟩

theorem state {R : State → State → Prop} {next : State → Check β} (h : Keeps env R (next s) s) :
    Keeps env R (Check.state >>= next) s :=
  ⟨h.left, h.fault⟩

theorem language {R : State → State → Prop} {next : Language → Check β}
    (h : Keeps env R (next env.language) s) : Keeps env R (Check.language >>= next) s :=
  ⟨h.left, h.fault⟩

theorem depth {R : State → State → Prop} {next : Nat → Check β}
    (h : Keeps env R (next s.depth) s) : Keeps env R (Check.depth >>= next) s :=
  ⟨h.left, h.fault⟩

theorem fail (frame : Frame R) {fault : Fault} {span : Span} (h : fault.OfProgram) :
    Keeps env (R 0) (Check.fail fault span : Check α) s :=
  ⟨frame.refl s, fun _ hrun => by cases hrun; exact h⟩

theorem report (frame : Frame R) {fault : Fault} {span : Span} (h : fault.OfProgram) :
    Keeps env (R 0) (Check.report fault span) s :=
  modify (frame.report h)

theorem require (frame : Frame R) {condition : Bool} {fault : Fault} {span : Span}
    (h : fault.OfProgram) : Keeps env (R 0) (Check.require condition fault span) s := by
  unfold Check.require
  split
  · exact pure frame ()
  · exact report frame h

theorem rule (frame : Frame R) {f : State → Except Diagnostic α}
    (h : ∀ diagnostic, f s = .error diagnostic → diagnostic.fault.OfProgram) :
    Keeps env (R 0) (Check.rule f) s :=
  ⟨frame.refl s, h⟩

theorem judge (frame : Frame R) {verdict : Except Fault α} {span : Span}
    (h : ∀ fault, verdict = .error fault → fault.OfProgram) :
    Keeps env (R 0) (Check.judge verdict span) s := by
  cases verdict with
  | ok a => exact pure frame a
  | error fault => exact fail frame (h fault rfl)

theorem attempt (frame : Frame R) {check : Check α} (h : Keeps env (R n) check s) :
    Keeps env (R n) (Check.attempt check) s := by
  rcases attempt_cases check env s with ⟨a, -, hrun⟩ | ⟨cause, hcause, hrun⟩
  · refine ⟨?_, fun _ h => by rw [hrun] at h; cases h⟩
    rw [hrun]
    exact h.left
  · refine ⟨?_, fun _ h => by rw [hrun] at h; cases h⟩
    rw [hrun]
    exact frame.trans h.left (frame.report (h.fault cause hcause))

theorem reporting (frame : Frame R) {check : Check Unit} (h : Keeps env (R n) check s) :
    Keeps env (R n) (Check.reporting check) s :=
  bind frame (attempt frame h) fun _ _ _ => pure frame ()

theorem lookup (frame : Frame R) (name : String) (span : Span) :
    Keeps env (R 0) (Check.lookup name span) s := by
  refine rule frame fun diagnostic h => ?_
  split at h <;> cases h
  rfl

theorem typeOrUnknown (frame : Frame R) (type : TypeExpr) :
    Keeps env (R 0) (Check.typeOrUnknown type) s :=
  seq frame (attempt frame (rule frame fun _ h => Table.resolve_error h)) fun _ _ _ =>
    pure frame _

theorem memberType (frame : Frame R) (object : Ty) (property : Ident) :
    Keeps env (R 0) (Check.memberType object property) s :=
  rule frame fun _ h => Table.memberType_error h

theorem useSymbol (frame : Frame R) (symbol : Symbol) (use : Use) (span : Span) :
    Keeps env (R 0) (Check.useSymbol symbol use span) s :=
  state (judge frame fun _ h => State.checkUse_error h)

theorem elementType (frame : Frame R) (object position : Ty) (positionSpan span : Span) :
    Keeps env (R 0) (Check.elementType object position positionSpan span) s := by
  unfold Check.elementType
  simp only
  split
  · exact fail frame rfl
  · split
    · exact pure frame _
    · exact fail frame rfl

theorem moduleMember (frame : Frame R) (path : String) (property : Ident) :
    Keeps env (R 0) (Check.moduleMember path property) s := by
  refine seq frame ⟨frame.refl s, fun _ h => by cases h⟩ fun surroundings _ _ => ?_
  split
  · exact pure frame _
  · exact fail frame rfl

end Keeps

end Check

end Custody
