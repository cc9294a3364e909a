import Custody.Proofs.Analysis.Blocked
import Custody.Proofs.Analysis.Frozen
import Custody.Proofs.Check.CoupledProgram
import Custody.Proofs.Scope.Calls
import Custody.Proofs.Scope.Hidden
import Mathlib.Data.Fintype.EquivFin

/-! Variables that nothing uses. Statements in which a name does not stand are checked as if a variable
of that name were not declared, unless the variable hides a type on whose name something depends: the
types of values refer to it, and the rules for members and for moves look it up again. Two short
programs find out: one reads a member, the other reads a variable whose value was taken over. -/

namespace Custody

namespace Table.Hiding

variable {hidden name : String} {n : Nat} {table table' : Table}

theorem takenOver (h : Hiding hidden n table table') (hname : name ≠ hidden) (language : Language) :
    Hiding hidden n (table.takenOver language name) (table'.takenOver language name) := by
  unfold Table.takenOver
  split
  · exact h.setState hname
  · exact h

theorem revived (h : Hiding hidden n table table') (hname : name ≠ hidden) :
    Hiding hidden n (table.revived name) (table'.revived name) := by
  unfold Table.revived
  rw [h.find?_eq hname]
  split
  · exact h.setState hname
  · exact h

end Table.Hiding

/-- Two runs that see all names but one. -/
def Coupling.hiding (hidden : String) (env : Env) (s : State) : Coupling where
  toPairing := .twice env s .written
  Sees name := name ≠ hidden
  Joined := Table.Hiding hidden
  answers {n table table'} h := by
    refine ⟨h.depth_eq, fun {name} hname => ?_, h.isReference_eq,
      fun hproperty => h.memberType_eq hproperty⟩
    rw [h.find?_eq hname]
    exact rel_refl .refl _
  contains_eq h hname := h.contains_eq hname
  knows _ _ _ _ := rfl
  append h hname _ := h.append hname
  takenOver h hname := h.takenOver hname env.language
  revived h hname := h.revived hname
  push h := h.push
  pop h := h.pop

theorem Symbol.module?_of_isVar {symbol : Symbol} (h : symbol.isVar = true) :
    symbol.module? = none := by
  rcases symbol with ⟨name, kind, ty, visibility, depth, span⟩
  cases kind with
  | var mutable state => rfl
  | _ => cases h

namespace State

/-- The states differ in what they declare under one name only, and the same has been reported. -/
structure AgreeBut (name : String) (s t : State) : Prop where
  diagnostics : t.diagnostics = s.diagnostics
  table : t.table.without name = s.table.without name
  ledger : t.ledger = s.ledger
  modes : t.modes = s.modes
  loops : t.loops = s.loops
  result : t.result = s.result

/-- The name stands for a variable of this type, and no rule forbids to use it. -/
def Offers (s : State) (name : String) (ty : Ty) : Prop :=
  ∃ symbol, s.table.find? name = some symbol ∧ symbol.isVar = true ∧ symbol.ty = ty ∧
    ∀ use, s.checkUse symbol use = .ok ()

/-- The state with one more symbol in the innermost scope. -/
def adding (s : State) (symbol : Symbol) : State :=
  { s with table := s.table.append (symbol.declaredAt s.depth) }

variable {s : State} {x : String} {ty : Ty} {symbol : Symbol}

theorem find?_adding (hne : symbol.name ≠ x) :
    (s.adding symbol).table.find? x = s.table.find? x := by
  have hname : (symbol.declaredAt s.depth).name ≠ x := hne
  exact Table.find?_append_of_ne hname s.table

theorem Offers.adding (h : s.Offers x ty) (hne : symbol.name ≠ x) :
    (s.adding symbol).Offers x ty := by
  obtain ⟨found, hfind, hvar, hty, huse⟩ := h
  refine ⟨found, (find?_adding hne).trans hfind, hvar, hty, fun use => ?_⟩
  have hdepth : (s.adding symbol).depth = s.depth := Table.depth_append s.table _
  rw [← huse use]
  unfold checkUse
  rw [hdepth]
  rfl

end State

namespace Check

variable {env : Env} {s t : State} {name x c : String} {ty : Ty} {symbol : Symbol}

/-- Checks statements after one more symbol has been declared. -/
def checkBeside (symbol : Symbol) (stmts : List Stmt) : Check Unit := do
  declare symbol
  checkStmts stmts

theorem checkBeside_apply (h : s.table.current.contains symbol.name = false) (stmts : List Stmt)
    (env : Env) : checkBeside symbol stmts env s = checkStmts stmts env (s.adding symbol) := by
  rw [checkBeside, bind_apply, declare_of_free h]
  rfl

/-- A variable that hides nothing that matters goes unnoticed. -/
theorem agreeBut_adding (hfree : s.table.current.contains symbol.name = false)
    (hvar : symbol.isVar = true) (hinert : s.table.InertAt symbol.name) {stmts : List Stmt}
    (hunused : symbol.name ∉ Stmt.namesAll stmts) :
    (checkStmts stmts env s).2.AgreeBut symbol.name (checkStmts stmts env (s.adding symbol)).2 := by
  have hjoined : Table.Hiding (symbol.declaredAt s.depth).name 0 s.table (s.adding symbol).table :=
    .of_append hfree hvar hinert
  have hcrosses : (Coupling.hiding symbol.name env s).crosses = false := Pairing.crosses_twice ..
  have hagrees : (Coupling.hiding symbol.name env s).Agrees 0 (checkStmts stmts) := by
    refine Coupling.checkStmts_agrees rfl stmts 0 ⟨fun other hother hsame => ?_, fun h => ?_⟩
    · exact hunused (hsame ▸ hother)
    · rw [hcrosses] at h
      cases h
  have hstart : (Coupling.hiding symbol.name env s).Related 0 s (s.adding symbol) :=
    ⟨hjoined, rfl, rfl, rfl, rfl, [], [], (List.append_nil _).symm, (List.append_nil _).symm, .nil⟩
  obtain ⟨-, hleft⟩ := hagrees.meets_of_same hcrosses hstart
  obtain ⟨new, new', hnew, hnew', hmatches⟩ := hleft.reports_of_same hcrosses
  obtain rfl : new' = new := Reading.reports_eq_of_written hmatches
  have hhiding : Table.Hiding symbol.name 0 (checkStmts stmts env s).2.table
      (checkStmts stmts env (s.adding symbol)).2.table := hleft.table
  exact ⟨hnew'.trans hnew.symm, hhiding.without_eq, hleft.ledger, hleft.modes, hleft.loops,
    hleft.result⟩

/-! ### Statements that notice a type -/

theorem checkStmts_cons_apply (stmt : Stmt) (stmts : List Stmt) :
    checkStmts (stmt :: stmts) env s = checkStmts stmts env (reporting (checkStmt stmt) env s).2 := by
  rw [checkStmts]
  exact bind_of_ok (reporting_ok (checkStmt stmt) env s)

theorem reporting_of_ok {check : Check Unit} (h : check env s = (.ok (), t)) :
    (reporting check env s).2 = t := by
  simp [reporting, attempt, bind_apply, h]

theorem checkStmts_expr_silent_iff {value : Expr} {result : Except Diagnostic Ty}
    (h : checkExpr value .read env s = (result, s)) :
    (checkStmts [.expr {} value] env s).2.diagnostics = s.diagnostics ↔ ∃ ty, result = .ok ty := by
  rw [checkStmts_cons_apply, checkStmts, checkStmt]
  simp only [reporting, attempt, bind_apply, h]
  cases result with
  | ok ty => simp
  | error diagnostic => simp [State.report]

theorem checkExpr_offered (h : s.Offers x ty) (span : Span) (use : Use) :
    checkExpr (.ident span x) use env s = (.ok ty, s) := by
  obtain ⟨symbol, hfind, hvar, rfl, huse⟩ := h
  rw [checkExpr, checkIdent_of_isVar use span hfind hvar, huse]

theorem checkExpr_moved (hfind : s.table.find? x = some symbol) (hmoved : symbol.isMoved = true)
    (span : Span) (use : Use) :
    checkExpr (.ident span x) use env s = (.error ⟨.useAfterMove symbol.name, span⟩, s) := by
  have hvar : symbol.isVar = true := by
    rcases symbol with ⟨symbolName, kind, ty, visibility, depth, declared⟩
    cases kind with
    | var mutable state => rfl
    | _ => cases hmoved
  rw [checkExpr, checkIdent_of_isVar use span hfind hvar, State.checkUse, if_pos hmoved]

/-- A member of `x` is read. -/
def readMember (x field : String) : List Stmt :=
  [.expr {} (.member {} (.ident {} x) ⟨field, {}⟩)]

theorem readMember_silent_iff (h : s.Offers x ty) (field : String) :
    (checkStmts (readMember x field) env s).2.diagnostics = s.diagnostics ↔
      ∃ found, s.table.memberType ty ⟨field, {}⟩ = .ok found := by
  refine checkStmts_expr_silent_iff ?_
  have hnamed : namedModule (.ident {} x) env s = (.ok none, s) := by
    obtain ⟨symbol, hfind, hvar, -, -⟩ := h
    simp [namedModule, bind_apply, Check.state, Expr.asIdent, hfind, Symbol.module?_of_isVar hvar]
  rw [checkExpr, bind_apply, hnamed]
  simp only
  rw [bind_apply, checkExpr_offered h]
  rfl

/-- The declaration of a variable `c` that takes the value of `x` over. -/
def taking (x c : String) : VarDecl where
  name := ⟨c, {}⟩
  mutable := false
  init := some (.ident {} x)

/-- `x` is read once its value has been taken over. -/
def readAfterTaking (x c : String) : List Stmt :=
  [.var {} (taking x c), .expr {} (.ident {} x)]

/-- The state in which a variable `x` of type `ty` has given its value. -/
def afterTaking (env : Env) (s : State) (x : String) (ty : Ty) : State :=
  if env.language.moves && s.table.isReference ty then
    { s with table := s.table.update x (Symbol.setState .moved) }
  else s

theorem takeOver_offered (h : s.Offers x ty) (hplain : ty.access? = none) :
    takeOver (.ident {} x) env s = (.ok (), afterTaking env s x ty) := by
  obtain ⟨symbol, hfind, hvar, rfl, -⟩ := h
  have haccess : symbol.access? = none := by
    rw [Symbol.access?, hvar, if_pos rfl, hplain]
  have hmovable : s.table.isMovable symbol = s.table.isReference symbol.ty := by
    rw [Table.isMovable, hvar, haccess]
    rfl
  simp only [takeOver, Expr.asIdent, hfind, hmovable, afterTaking]
  split
  · exact setState_of_find? hfind _ _ env
  · rfl

theorem checkVar_taking (h : s.Offers x ty) (hplain : ty.access? = none)
    (hfree : s.table.current.contains c = false) :
    ∃ symbol, symbol.name = c ∧
      checkVar (taking x c) env s = (.ok (), (afterTaking env s x ty).adding symbol) := by
  have hinit : varType (taking x c) env s =
      (.ok (env.language.settle ty), afterTaking env s x ty) := by
    simp only [varType, taking, declaredType, initType, bind_apply, pure_apply, Check.depth, attempt,
      checkExpr_offered h, Check.language, takeOver_offered h hplain]
  have hfree' : (afterTaking env s x ty).table.current.contains c = false := by
    unfold afterTaking
    split
    · exact (Table.contains_update (Symbol.name_setState .moved) s.table c).trans hfree
    · exact hfree
  refine ⟨Symbol.var c (env.language.settle ty) false {}, rfl, ?_⟩
  rw [checkVar, bind_apply, hinit]
  exact declare_of_free hfree' env

theorem readAfterTaking_silent_iff (h : s.Offers x ty) (hplain : ty.access? = none)
    (hfree : s.table.current.contains c = false) (hne : c ≠ x) :
    (checkStmts (readAfterTaking x c) env s).2.diagnostics = s.diagnostics ↔
      (env.language.moves && s.table.isReference ty) = false := by
  obtain ⟨taker, rfl, htaken⟩ : ∃ taker : Symbol, taker.name = c ∧
      checkVar (taking x c) env s = (.ok (), (afterTaking env s x ty).adding taker) :=
    checkVar_taking h hplain hfree
  rw [readAfterTaking, checkStmts_cons_apply, checkStmt, reporting_of_ok htaken, afterTaking]
  cases hmoves : env.language.moves && s.table.isReference ty with
  | false =>
      rw [if_neg Bool.false_ne_true]
      have hread : checkExpr (.ident {} x) .read env (s.adding taker) = (.ok ty, s.adding taker) :=
        checkExpr_offered (h.adding hne) {} .read
      exact iff_of_true ((checkStmts_expr_silent_iff hread).2 ⟨ty, rfl⟩) rfl
  | true =>
      obtain ⟨symbol, hfind, hvar, rfl, -⟩ := h
      rw [if_pos rfl]
      let moved : State := { s with table := s.table.update x (Symbol.setState .moved) }
      have hmoved : (moved.adding taker).table.find? x = some (symbol.setState .moved) := by
        rw [State.find?_adding hne]
        exact (Table.find?_update (Symbol.name_setState .moved) s.table x).trans (by rw [hfind]; rfl)
      have hread : checkExpr (.ident {} x) .read env (moved.adding taker) =
          (.error ⟨.useAfterMove (symbol.setState .moved).name, {}⟩, moved.adding taker) :=
        checkExpr_moved hmoved (Symbol.isMoved_setState hvar) {} .read
      refine iff_of_false (fun hsilent => ?_) (by decide)
      obtain ⟨ty, hty⟩ := (checkStmts_expr_silent_iff hread).1 hsilent
      cases hty

/-! ### What an unnoticed variable hides -/

/-- Statements in which its name does not stand report the same with the symbol and without it. -/
def Unnoticed (symbol : Symbol) (env : Env) (s : State) : Prop :=
  ∀ stmts, symbol.name ∉ Stmt.namesAll stmts →
    (checkBeside symbol stmts env s).2.diagnostics = (checkStmts stmts env s).2.diagnostics

section

variable {args : List Ty} {hidden : Symbol}

theorem Unnoticed.silent_adding (h : Unnoticed symbol env s)
    (hfree : s.table.current.contains symbol.name = false) {stmts : List Stmt}
    (hunused : symbol.name ∉ Stmt.namesAll stmts) :
    (checkStmts stmts env (s.adding symbol)).2.diagnostics = (s.adding symbol).diagnostics ↔
      (checkStmts stmts env s).2.diagnostics = s.diagnostics := by
  rw [← checkBeside_apply hfree, h stmts hunused]
  rfl

theorem inertAt_adding (hfree : s.table.current.contains symbol.name = false)
    (hvar : symbol.isVar = true) : (s.adding symbol).table.InertAt symbol.name := by
  have hinert : (s.adding symbol).table.InertAt (symbol.declaredAt s.depth).name :=
    Table.inertAt_append hfree hvar
  exact hinert

/-- A hidden field could be read without the variable only. -/
theorem Unnoticed.fields_eq (h : Unnoticed symbol env s)
    (hfree : s.table.current.contains symbol.name = false) (hvar : symbol.isVar = true)
    (hoffers : s.Offers x (.named symbol.name args)) (hne : symbol.name ≠ x)
    (hfind : s.table.find? symbol.name = some hidden) :
    ∀ field ∈ hidden.fields?.getD [], field.1 = symbol.name := by
  intro field hfield
  by_contra hother
  have hunused : symbol.name ∉ Stmt.namesAll (readMember x field.1) := by
    simp [readMember, Stmt.namesAll, Stmt.names, Expr.names, hne, Ne.symm hother]
  have hfound : ∃ found, s.table.memberType (.named symbol.name args) ⟨field.1, {}⟩ = .ok found := by
    cases hlookup : (hidden.fields?.getD []).lookup field.1 with
    | none => exact absurd (List.lookup_eq_none_iff.1 hlookup field hfield) (by simp)
    | some ty =>
        exact ⟨ty.subst (hidden.params.zip args), by simp [Table.memberType, Ty.strip, hfind, hlookup]⟩
  have hsilent := (h.silent_adding hfree hunused).2 ((readMember_silent_iff hoffers field.1).2 hfound)
  obtain ⟨found, hok⟩ := (readMember_silent_iff (hoffers.adding hne) field.1).1 hsilent
  rw [Table.memberType_of_inertAt (inertAt_adding hfree hvar) rfl hother] at hok
  cases hok

/-- A variable of a hidden entity type would be moved without the variable only. -/
theorem Unnoticed.semantics_ne (h : Unnoticed symbol env s) (hmoves : env.language.moves = true)
    (hfree : s.table.current.contains symbol.name = false) (hvar : symbol.isVar = true)
    (hoffers : s.Offers x (.named symbol.name args)) (hne : symbol.name ≠ x)
    (hfind : s.table.find? symbol.name = some hidden) :
    hidden.semantics? ≠ some .reference := by
  intro hreference
  -- the taker is new to both states, so that it is declared in both
  obtain ⟨c, hfresh⟩ := Infinite.exists_notMem_finset
    (symbol.name :: x :: s.table.current.names).toFinset
  rw [List.mem_toFinset, List.mem_cons, List.mem_cons, not_or, not_or] at hfresh
  obtain ⟨hsymbol, hx, hcurrent⟩ := hfresh
  have hunused : symbol.name ∉ Stmt.namesAll (readAfterTaking x c) := by
    simp [readAfterTaking, taking, Stmt.namesAll, Stmt.names, VarDecl.names, Expr.names, hne,
      Ne.symm hsymbol]
  have hfree' : s.table.current.contains c = false := Scope.contains_eq_false_iff.2 hcurrent
  have hadded : (s.adding symbol).table.current.contains c = false := by
    rw [Scope.contains_eq_false_iff]
    simpa [State.adding, Scope.names, hsymbol] using hcurrent
  have hkept : (env.language.moves &&
      (s.adding symbol).table.isReference (.named symbol.name args)) = false := by
    rw [Table.isReference_of_inertAt (inertAt_adding hfree hvar), Bool.and_false]
  have hsilent := (readAfterTaking_silent_iff (hoffers.adding hne) rfl hadded hx).2 hkept
  have hplain := (readAfterTaking_silent_iff hoffers rfl hfree' hx).1
    ((h.silent_adding hfree hunused).1 hsilent)
  simp [hmoves, Table.isReference, hfind, hreference] at hplain

theorem Unnoticed.inertAt (h : Unnoticed symbol env s) (hmoves : env.language.moves = true)
    (hfree : s.table.current.contains symbol.name = false) (hvar : symbol.isVar = true)
    (hoffers : s.Offers x (.named symbol.name args)) : s.table.InertAt symbol.name := by
  intro hidden hfind
  by_cases hne : symbol.name = x
  · -- The symbol hides the very variable of its type, and variables tell nothing about types.
    obtain ⟨found, hfound, hfoundVar, -⟩ := hoffers
    rw [← hne, hfind] at hfound
    cases hfound
    exact Symbol.isInert_of_isVar hfoundVar symbol.name
  · rw [Symbol.isInert, Bool.and_eq_true, List.all_eq_true, bne_iff_ne]
    have hfields := h.fields_eq hfree hvar hoffers hne hfind
    exact ⟨fun field hfield => beq_iff_eq.2 (hfields field hfield),
      h.semantics_ne hmoves hfree hvar hoffers hne hfind⟩

end

/-- Where the name is free in the innermost scope and tells nothing about types, statements in which it
does not stand are checked in the same way, and to the same end, when a variable of this name is
declared before them. Where values move, the condition is exact as soon as a variable of the named type
can be used: if no such statements report anything else, the name tells nothing about types. -/
theorem unused_variable_changes_nothing (env : Env) (s : State) {name : String} (ty : Ty)
    (mutable : Bool) (span : Span) (hfree : s.table.current.contains name = false) :
    (s.table.InertAt name → ∀ stmts, name ∉ Stmt.namesAll stmts →
      (checkStmts stmts env s).2.AgreeBut name
        (checkBeside (Symbol.var name ty mutable span) stmts env s).2) ∧
    (env.language.moves = true → ∀ x args, s.Offers x (.named name args) →
      Unnoticed (Symbol.var name ty mutable span) env s → s.table.InertAt name) := by
  have hfree' : s.table.current.contains (Symbol.var name ty mutable span).name = false := hfree
  refine ⟨fun hinert stmts hunused => ?_, fun hmoves x args hoffers hunnoticed => ?_⟩
  · rw [checkBeside_apply hfree']
    exact agreeBut_adding hfree' rfl hinert hunused
  · exact hunnoticed.inertAt hmoves hfree' rfl hoffers

end Check

namespace Linked

open Check

/-- The value of `b` is handed on to `c` and to `d`. -/
def handedOnTwice : List Stmt :=
  [.var {} (taking "b" "c"), .var {} (taking "b" "d")]

/-- A variable `f`, which hides a routine, changes nothing about a value that is handed on twice; a
variable `Box` does, to some statements. -/
theorem unused_variable_changes_nothing_boxed :
    (boxed.table.current.contains "f" = false ∧ "f" ∉ Stmt.namesAll handedOnTwice ∧
      (boxed.table.find? "f").isSome = true ∧
      (checkBeside (Symbol.var "f" .bool false {}) handedOnTwice (relaying.env {}) boxed).2.diagnostics =
        [⟨.useAfterMove "b", {}⟩]) ∧
    (boxed.table.current.contains "Box" = false ∧ boxed.Offers "b" (.plain "Box") ∧
      ¬ Unnoticed (Symbol.var "Box" .bool false {}) (relaying.env {}) boxed) := by
  have hfree : boxed.table.current.contains "f" = false := by decide
  have hunused : "f" ∉ Stmt.namesAll handedOnTwice := by decide
  have hroutine : boxed.table.InertAt "f" := by
    intro hidden hfind
    cases hfind
    rfl
  have hbox : boxed.table.current.contains "Box" = false := by decide
  have hoffers : boxed.Offers "b" (.plain "Box") :=
    ⟨boxOf "b" true, rfl, rfl, rfl, by intro use; cases use <;> rfl⟩
  refine ⟨⟨hfree, hunused, rfl, ?_⟩, hbox, hoffers, fun hunnoticed => ?_⟩
  · exact ((unused_variable_changes_nothing (relaying.env {}) boxed .bool false {} hfree).1
      hroutine handedOnTwice hunused).diagnostics
  · have hinert := (unused_variable_changes_nothing (relaying.env {}) boxed .bool false {} hbox).2
      rfl "b" [] hoffers hunnoticed
    exact absurd (hinert _ rfl) (by decide)

/-- A variable that hides the type of `b` changes whether `b` can be handed on twice, though its name
does not stand in the statements. -/
theorem unused_variable_hides_type :
    Reachable {} relaying boxed ∧ boxed.table.current.contains "Box" = false ∧
      "Box" ∉ Stmt.namesAll handedOnTwice ∧
      (checkStmts handedOnTwice (relaying.env {}) boxed).2.diagnostics =
        [⟨.useAfterMove "b", {}⟩] ∧
      (checkBeside (Symbol.var "Box" .bool false {}) handedOnTwice (relaying.env {})
        boxed).2.diagnostics = [] :=
  ⟨reachable_boxed, by decide, by decide, rfl, rfl⟩

end Linked

end Custody
