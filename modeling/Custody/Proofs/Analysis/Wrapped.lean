import Custody.Proofs.Analysis.Frozen
import Custody.Proofs.Check.Twins

/-! Parentheses. An expression is checked as if it were written without them, up to the places of
diagnostics. The target of an assignment is not: in parentheses a variable is written to as a place, and
the rules for a place are others than those for a variable that is assigned as a whole. -/

namespace Custody

/-- What a check comes to and all that it leaves behind, up to the places of diagnostics. -/
def Check.outcome {α : Type} (check : Check α) (env : Env) (s : State) :
    Except Fault α × List Fault × State :=
  ((check env s).1.mapError (·.fault), (check env s).2.diagnostics.map (·.fault),
    (check env s).2.silent)

/-! ### Expressions -/

/-- Runs that differ in nothing but the parentheses of the expressions they read have the same
outcome. -/
theorem Pairing.outcome_eq {α : Type} {env : Env} {s : State} {check check' : Check α}
    (h : (twice env s .bare).twins.Couples 0 Eq check check') :
    check'.outcome env s = check.outcome env s := by
  have hcrosses := crosses_twice env s .bare
  obtain ⟨hends, hrelated⟩ := h.meets_of_same hcrosses
    (related_twins hcrosses rfl rfl rfl fun _ _ _ _ _ _ _ => rfl)
  have hsilent : (check env s).2.silent = (check' env s).2.silent := twins_silent hrelated hcrosses
  obtain ⟨new, new', hleft, hright, hmatches⟩ := hrelated.reports_of_same hcrosses
  have hfaults : (check' env s).2.diagnostics.map (·.fault) =
      (check env s).2.diagnostics.map (·.fault) := by
    rw [show (check env s).2.diagnostics = s.diagnostics ++ new from hleft,
      show (check' env s).2.diagnostics = s.diagnostics ++ new' from hright, List.map_append,
      List.map_append, Reading.faults_eq hmatches]
  have hresult : (check' env s).1.mapError (·.fault) = (check env s).1.mapError (·.fault) :=
    hends.fault_eq
  rw [Check.outcome, Check.outcome, hresult, hfaults, hsilent]

namespace Check

/-- Whatever an expression is used for, without its parentheses it has the same type or is cut short by
the same fault, the same faults are reported in the same order, and the state that is left is the
same. -/
theorem checkExpr_without_parens (expr : Expr) (use : Use) (env : Env) (s : State) :
    expr.bare.hasParen = false ∧
      (checkExpr expr.bare use).outcome env s = (checkExpr expr use).outcome env s := by
  have hcouples : (Pairing.twice env s .bare).twins.Couples 0 Eq (checkExpr expr use)
      (checkExpr expr.bare use) := Coupling.checkExpr_couples expr use 0 fun _ _ => trivial
  exact ⟨expr.hasParen_bare, Pairing.outcome_eq hcouples⟩

end Check

/-! ### Targets of assignments -/

namespace State

variable {s : State} {name : String} {symbol : Symbol}

/-- The verdict on a variable that is assigned as a whole. -/
def judgeTarget (s : State) (name : String) (symbol : Symbol) : Except Fault Unit :=
  if !symbol.isVar then .error (.misuse (.assignTo name))
  else if !symbol.isMutable then .error (.assignToImmutable name)
  else
    match s.ledger.checkUse symbol.key s.depth .write (s.modes.isActive .usurping) with
    | .ok () => .ok ()
    | .error violation => .error (.ofViolation violation)

/-- The verdict on a variable that is written to as a place. -/
def judgePlace (s : State) (name : String) (symbol : Symbol) : Except Fault Unit :=
  if !symbol.isVar then .error (.misuse (.assignThrough name))
  else
    match s.checkUse symbol .write with
    | .ok () =>
        if symbol.access?.isNone && !symbol.isMutable then .error (.assignToImmutable name)
        else .ok ()
    | .error fault => .error fault

/-- The variable has its value; if it is held it can be assigned to, and if it is not, but holds a
token, it can be assigned to and the token writes. -/
def WritesAlike (s : State) (symbol : Symbol) : Prop :=
  symbol.isVar = true ∧ symbol.isMoved = false ∧
    if s.ledger.isHeld symbol.key then symbol.isMutable = true
    else ∀ access, symbol.access? = some access → symbol.isMutable = true ∧ access.writes = true

/-- A variable that can be assigned to is not a live token. -/
theorem Tracked.token?_of_isMutable (h : s.Tracked) (hfind : s.table.find? name = some symbol)
    (hmutable : symbol.isMutable = true) : s.ledger.token? symbol.key = none := by
  refine List.find?_eq_none.2 fun token htoken hkey => ?_
  obtain ⟨declared, hdeclared, ⟨state, hkind⟩, -, -⟩ := h.token token htoken
  have hkey : token.key = symbol.key := by simpa using hkey
  rw [hkey, h.aligned.symbol?_key hfind] at hdeclared
  cases hdeclared
  rw [Symbol.isMutable, hkind] at hmutable
  cases hmutable

theorem checkUse_fault {use : Use} {fault : Fault} (h : s.checkUse symbol use = .error fault) :
    fault = .useAfterMove symbol.name ∨ ∃ violation, fault = .ofViolation violation := by
  unfold checkUse at h
  split at h
  · cases h
    exact .inl rfl
  · refine .inr ?_
    simp only at h
    split at h
    · cases h
      exact ⟨_, rfl⟩
    · split at h
      · split at h
        · cases h
          exact ⟨_, rfl⟩
        · cases h
      · cases h

theorem judgeTarget_fault {fault : Fault} (h : s.judgeTarget name symbol = .error fault) :
    fault = .misuse (.assignTo name) ∨ fault = .assignToImmutable name ∨
      ∃ violation, fault = .ofViolation violation := by
  unfold judgeTarget at h
  split at h
  · cases h
    exact .inl rfl
  · split at h
    · cases h
      exact .inr (.inl rfl)
    · split at h
      · cases h
      · cases h
        exact .inr (.inr ⟨_, rfl⟩)

theorem judgePlace_fault {fault : Fault} (h : s.judgePlace name symbol = .error fault) :
    fault = .misuse (.assignThrough name) ∨ fault = .assignToImmutable name ∨
      s.checkUse symbol .write = .error fault := by
  unfold judgePlace at h
  split at h
  · cases h
    exact .inl rfl
  · split at h
    · split at h
      · cases h
        exact .inr (.inl rfl)
      · cases h
    · rename_i huse
      cases h
      exact .inr (.inr huse)

/-- The verdicts on a variable agree if and only if it writes alike. -/
theorem Tracked.judgeTarget_eq_iff (h : s.Tracked) (hfind : s.table.find? name = some symbol) :
    s.judgeTarget name symbol = s.judgePlace name symbol ↔ s.WritesAlike symbol := by
  cases hvar : symbol.isVar with
  | false => simp [judgeTarget, judgePlace, WritesAlike, hvar]
  | true =>
  cases hmoved : symbol.isMoved with
  | true =>
      -- a place must have its value, a variable that is assigned need not
      have hplace : s.judgePlace name symbol = .error (.useAfterMove symbol.name) := by
        simp [judgePlace, checkUse, hvar, hmoved]
      have hne : s.judgeTarget name symbol ≠ .error (.useAfterMove symbol.name) := by
        intro htarget
        rcases judgeTarget_fault htarget with hfault | hfault | ⟨violation, hfault⟩
        · cases hfault
        · cases hfault
        · cases violation <;> cases hfault
      simp [hplace, hne, WritesAlike, hmoved]
  | false =>
  have hwrite := h.checkUse_write hfind
  cases hheld : s.ledger.isHeld symbol.key with
  | true =>
      obtain ⟨hold, hhold⟩ : ∃ hold, s.ledger.lastHold? symbol.key = some hold := by
        refine Option.ne_none_iff_exists'.1 fun hnone => ?_
        rw [h.sound.lastHold?_eq_none_iff, hheld] at hnone
        cases hnone
      cases hmutable : symbol.isMutable <;>
        simp [judgeTarget, judgePlace, checkUse, Ledger.checkUse, WritesAlike, hvar, hmoved, hheld,
          hhold, hmutable, Fault.ofViolation]
  | false =>
  have hhold := h.sound.lastHold?_eq_none_iff.2 hheld
  cases hmutable : symbol.isMutable with
  | true =>
      have htarget : s.judgeTarget name symbol = .ok () := by
        simp [judgeTarget, Ledger.checkUse, hvar, hmutable, hhold,
          h.token?_of_isMutable hfind hmutable]
      have hplace : s.judgePlace name symbol = .ok () ↔ s.checkUse symbol .write = .ok () := by
        simp only [judgePlace, hvar, hmutable]
        cases s.checkUse symbol .write <;> simp
      rw [htarget, eq_comm, hplace, hwrite]
      simp [WritesAlike, hvar, hmoved, hheld, hmutable]
  | false =>
      have htarget : s.judgeTarget name symbol = .error (.assignToImmutable name) := by
        simp [judgeTarget, hvar, hmutable]
      cases haccess : symbol.access? with
      | none =>
          have huse : s.checkUse symbol .write = .ok () := hwrite.2 ⟨hmoved, hheld, by simp [haccess]⟩
          simp [htarget, judgePlace, WritesAlike, hvar, hmoved, hheld, hmutable, haccess, huse]
      | some kind =>
          -- a token is written through, whether or not its variable can be assigned to
          have hne : s.judgePlace name symbol ≠ .error (.assignToImmutable name) := by
            cases huse : s.checkUse symbol .write with
            | ok _ => simp [judgePlace, hvar, haccess, huse]
            | error fault =>
                intro hplace
                obtain rfl : fault = .assignToImmutable name := by
                  simpa [judgePlace, hvar, huse] using hplace
                rcases checkUse_fault huse with hfault | ⟨violation, hfault⟩
                · cases hfault
                · cases violation <;> cases hfault
          simp [htarget, hne.symm, WritesAlike, hmoved, hheld, hmutable, haccess]

end State

namespace Check

variable {env : Env} {s : State} {name : String} {symbol : Symbol}

theorem checkTarget_apply (hfind : s.table.find? name = some symbol) (span : Span) :
    checkTarget name span env s =
      (do judge (s.judgeTarget name symbol) span; return (symbol.ty, symbol.depth)) env s := by
  have hlookup : lookup name span env s = (.ok symbol, s) := by simp [lookup, rule, hfind]
  rw [checkTarget, bind_apply, hlookup]
  rcases symbol with ⟨symbolName, kind, ty, visibility, depth, declared⟩
  cases kind with
  | var mutable state =>
      cases mutable with
      | false => rfl
      | true =>
          simp only [bind_apply, Check.state, State.judgeTarget, Symbol.isVar, Symbol.isMutable]
          cases s.ledger.checkUse _ s.depth .write (s.modes.isActive .usurping) <;> rfl
  | _ => rfl

theorem checkPlace_apply (hfind : s.table.find? name = some symbol) (span : Span) :
    checkPlace (.ident span name) env s =
      (do judge (s.judgePlace name symbol) span; return (symbol.ty, symbol.depth)) env s := by
  have hlookup : lookup name span env s = (.ok symbol, s) := by simp [lookup, rule, hfind]
  rw [checkPlace, bind_apply, hlookup]
  simp only [State.judgePlace]
  cases symbol.isVar with
  | false => rfl
  | true =>
      simp only [Bool.not_true, Bool.false_eq_true, if_false, bind_apply, useSymbol, Check.state]
      cases s.checkUse symbol .write with
      | error fault => rfl
      | ok _ => cases symbol.access?.isNone && !symbol.isMutable <;> rfl

theorem revive_paren (wrap : Span) (target : Expr) : revive (.paren wrap target) = revive target := by
  funext env s
  simp only [revive, Expr.asIdent]
  cases target.asIdent with
  | none => rfl
  | some name =>
      cases hfind : s.table.find? name with
      | none => simp only [hfind, Option.any_none, Bool.false_eq_true, if_false]
      | some symbol => simp only [setState_of_find? hfind]

/-- In parentheses the target is a place; what is assigned to it is checked alike. -/
theorem checkAssign_paren (wrap : Span) (target value : Expr) :
    checkAssign (.paren wrap target) value = (do
      let place ← checkPlace target
      assignValue target value place.1 place.2) := by
  rw [checkAssign, assignTarget, checkPlace]
  · simp only [assignValue, revive_paren]
  · intro span name h
    cases h

theorem assignTarget_of_not_ident {target : Expr} (h : ∀ span name, target ≠ .ident span name) :
    assignTarget target = checkPlace target := by
  cases target with
  | ident span name => exact absurd rfl (h span name)
  | _ => rfl

theorem checkAssign_ident_apply (hfind : s.table.find? name = some symbol) (span : Span)
    (value : Expr) :
    checkAssign (.ident span name) value env s = (do
      judge (s.judgeTarget name symbol) span
      assignValue (.ident span name) value symbol.ty symbol.depth) env s := by
  rw [checkAssign, assignTarget, bind_apply, checkTarget_apply hfind]
  cases s.judgeTarget name symbol <;> rfl

theorem checkAssign_paren_ident_apply (hfind : s.table.find? name = some symbol) (wrap span : Span)
    (value : Expr) :
    checkAssign (.paren wrap (.ident span name)) value env s = (do
      judge (s.judgePlace name symbol) span
      assignValue (.ident span name) value symbol.ty symbol.depth) env s := by
  rw [checkAssign_paren, bind_apply, checkPlace_apply hfind]
  cases s.judgePlace name symbol <;> rfl

/-- Where the verdicts agree, parentheses make no difference. -/
theorem checkAssign_paren_eq {target : Expr} (wrap : Span) (value : Expr)
    (h : ∀ span name symbol, target = .ident span name → s.table.find? name = some symbol →
      s.judgeTarget name symbol = s.judgePlace name symbol) :
    checkAssign (.paren wrap target) value env s = checkAssign target value env s := by
  by_cases hident : ∃ span name, target = .ident span name
  · obtain ⟨span, name, rfl⟩ := hident
    cases hfind : s.table.find? name with
    | none =>
        have hlookup : lookup name span env s = (.error ⟨.undefinedSymbol name, span⟩, s) := by
          simp [lookup, rule, hfind]
        rw [checkAssign_paren, checkAssign, assignTarget, checkPlace, checkTarget, bind_apply,
          bind_apply, bind_apply, bind_apply, hlookup]
    | some symbol =>
        rw [checkAssign_paren_ident_apply hfind, checkAssign_ident_apply hfind,
          h span name symbol rfl hfind]
  · have hplace := assignTarget_of_not_ident fun span name htarget => hident ⟨span, name, htarget⟩
    rw [checkAssign_paren, checkAssign, hplace]

/-- A value of which only the type can be wrong. -/
def truth : Expr :=
  .literal {} (.bool true)

theorem assignValue_truth (target : Expr) (ty : Ty) (depth : Nat) (env : Env) (s : State) :
    (assignValue target truth ty depth env s).1 = .ok () ∨
      (assignValue target truth ty depth env s).1 = .error ⟨.typeMismatch ty .bool, {}⟩ := by
  have hvalue : assignValue target truth ty depth env s =
      (judge (ty.expect .bool) {} >>= fun _ => revive target) env s := by
    rw [assignValue, truth, checkExpr, pure_bind]
    refine congrFun (congrFun (bind_congr fun _ => ?_) env) s
    funext env s
    rw [bind_apply, Check.state]
    have hplain : s.table.isReferenceToken (Literal.bool true).ty = false := rfl
    simp only [hplain, Bool.and_false]
    rfl
  rw [hvalue, Ty.expect]
  split
  · rcases revive_apply target env s with hrun | ⟨_, _, _, _, _, hrun⟩
    · exact .inl (congrArg Prod.fst hrun)
    · exact .inl (congrArg Prod.fst hrun)
  · exact .inr rfl

/-- What cuts an assignment of that value short is the verdict on the target, or the type is wrong. -/
theorem fault_of_truth_iff {verdict : Except Fault Unit} {target : Expr} {ty : Ty} {depth : Nat}
    {span : Span} {fault : Fault} (hfault : fault ≠ .typeMismatch ty .bool) :
    ((judge verdict span >>= fun _ => assignValue target truth ty depth) env s).1.mapError
      Diagnostic.fault = .error fault ↔ verdict = .error fault := by
  cases verdict with
  | error cause => exact Iff.rfl
  | ok _ =>
      have hrun : (judge (.ok ()) span >>= fun _ => assignValue target truth ty depth) env s =
          assignValue target truth ty depth env s := rfl
      rw [hrun]
      rcases assignValue_truth target ty depth env s with hends | hends
      · simp [hends, Except.mapError]
      · simp [hends, Except.mapError, hfault.symm]

/-- Assignments of that value to the variable and to the place tell the verdicts apart. -/
theorem verdict_eq_of_outcome (hfind : s.table.find? name = some symbol) (wrap span : Span)
    (h : (checkAssign (.paren wrap (.ident span name)) truth).outcome env s =
      (checkAssign (.ident span name) truth).outcome env s) :
    s.judgeTarget name symbol = s.judgePlace name symbol := by
  have hends := congrArg Prod.fst h
  simp only [outcome, checkAssign_paren_ident_apply hfind, checkAssign_ident_apply hfind] at hends
  cases htarget : s.judgeTarget name symbol with
  | error fault =>
      have hfault : fault ≠ .typeMismatch symbol.ty .bool := by
        rcases State.judgeTarget_fault htarget with rfl | rfl | ⟨violation, rfl⟩
        · simp
        · simp
        · cases violation <;> simp [Fault.ofViolation]
      rw [htarget, (fault_of_truth_iff hfault).2 rfl, fault_of_truth_iff hfault] at hends
      exact hends.symm
  | ok _ =>
      cases hplace : s.judgePlace name symbol with
      | ok _ => rfl
      | error fault =>
          have hfault : fault ≠ .typeMismatch symbol.ty .bool := by
            rcases State.judgePlace_fault hplace with rfl | rfl | huse
            · simp
            · simp
            · rcases State.checkUse_fault huse with rfl | ⟨violation, rfl⟩
              · simp
              · cases violation <;> simp [Fault.ofViolation]
          rw [hplace, (fault_of_truth_iff hfault).2 rfl, eq_comm, fault_of_truth_iff hfault,
            htarget] at hends
          cases hends

end Check

namespace Linked

open Check

variable {settings : Settings} {linked : Linked} {s : State}

/-- Whenever a piece of a program is checked, parentheses around the target of an assignment make no
difference whatever is assigned if and only if the target is not just the name of something, or names a
variable that writes alike. -/
theorem wrapped_target_iff (hs : Reachable settings linked s) (target : Expr) (env : Env) :
    (∀ span wrap value,
      (checkStmt (.assign span (.paren wrap target) value)).outcome env s =
        (checkStmt (.assign span target value)).outcome env s) ↔
    ∀ span name symbol, target = .ident span name → s.table.find? name = some symbol →
      s.WritesAlike symbol := by
  constructor
  · rintro halways span name symbol rfl hfind
    have houtcome := halways {} {} truth
    rw [checkStmt, checkStmt] at houtcome
    exact (hs.tracked.judgeTarget_eq_iff hfind).1 (verdict_eq_of_outcome hfind {} span houtcome)
  · intro halike span wrap value
    have hrun : checkAssign (.paren wrap target) value env s = checkAssign target value env s :=
      checkAssign_paren_eq wrap value fun place name symbol htarget hfind =>
        (hs.tracked.judgeTarget_eq_iff hfind).2 (halike place name symbol htarget hfind)
    rw [checkStmt, checkStmt, outcome, outcome, hrun]

/-- In particular `b` may stand in parentheses in `relaying` as long as it has its value, and not any
more once it has handed it on. -/
theorem wrapped_target_iff_relayed :
    let transparent := fun s => ∀ span wrap value,
      (checkStmt (.assign span (.paren wrap (.ident {} "b")) value)).outcome (relaying.env {}) s =
        (checkStmt (.assign span (.ident {} "b") value)).outcome (relaying.env {}) s
    (Reachable {} relaying boxed ∧ transparent boxed) ∧
      Reachable {} relaying relayed ∧ ¬ transparent relayed := by
  intro transparent
  refine ⟨⟨reachable_boxed, ?_⟩, reachable_relayed, fun halways => ?_⟩
  · refine (wrapped_target_iff reachable_boxed (.ident {} "b") _).2 ?_
    intro span name symbol htarget hfind
    cases htarget
    obtain rfl : boxOf "b" true = symbol := Option.some.inj hfind
    exact ⟨rfl, rfl, fun access haccess => by cases haccess⟩
  · have halike := (wrapped_target_iff reachable_relayed (.ident {} "b") _).1 halways {} "b"
      ((boxOf "b" true).setState .moved) rfl rfl
    cases halike.2.1

/-- A variable that has handed its value on gets a new one by an assignment, but not by one in which it
stands in parentheses. -/
theorem wrapped_target_moved :
    let value : Expr := .construct {} ⟨"Box", {}⟩ []
    Reachable {} relaying relayed ∧
      (checkStmt (.assign {} (.ident {} "b") value)).outcome (relaying.env {}) relayed =
        (.ok (), [], inRelaying [[boxOf "b" true, boxOf "c" false]] {}) ∧
      (checkStmt (.assign {} (.paren {} (.ident {} "b")) value)).outcome (relaying.env {}) relayed =
        (.error (.useAfterMove "b"), [], relayed) :=
  ⟨reachable_relayed, rfl, rfl⟩

end Linked

end Custody
