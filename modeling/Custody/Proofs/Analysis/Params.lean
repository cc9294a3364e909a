import Custody.Proofs.Check.Complete
import Custody.Proofs.Check.ProperProgram

/-! Type parameters do not leave the types that declare them. A parameter accepts every type and every
type accepts it, so that one that got into the type of a variable or of an expression would switch
checking off there. It does not happen: at every place of an analysis all symbols have closed types,
type expressions mean closed types, and expressions have closed types. Parameters are found in the
fields of types, and as types of their own only in the scope in which those fields are resolved. -/

namespace Custody

open Check

/-- No type parameter is in sight: not in the type of a symbol, in what a routine returns, in what a
type expression means, or in what an expression comes to. -/
structure State.ParamFree (env : Env) (s : State) : Prop where
  symbols : s.table.All (·.ty.isClosed = true)
  result : ∀ ty, s.result = some ty → ty.isClosed = true
  resolved : ∀ type ty, s.table.resolve type = .ok ty → ty.isClosed = true
  found : ∀ expr use ty, (checkExpr expr use env s).1 = .ok ty → ty.isClosed = true

theorem State.Proper.paramFree {env : Env} {s : State}
    (h : s.Proper env.language (Table.Proper env.language)) : s.ParamFree env where
  symbols := h.table.mono fun _ hsymbol => hsymbol.closed
  result := h.result
  resolved _ _ hresolve := (resolve_ensures _).value h hresolve
  found _ _ _ hfound := (checkExpr_ensures _ _).value h hfound

namespace Check

/-- The check of a type up to its first `count` fields, at a place where the scope of the fields is
still open. -/
def upToField (decl : TypeDecl) (count : Nat) : Check (List (String × Ty)) := do
  declare { Symbol.composite decl.semantics decl.name.name [] decl.paramNames decl.name.span with
    visibility := decl.visibility }
  modify State.openScope
  declareTypeParams decl.params
  checkFields (decl.fields.take count) []

theorem checkFields_append (first rest : List FieldDecl) (done : List (String × Ty)) :
    checkFields (first ++ rest) done = (do
      let found ← checkFields first done
      checkFields rest found) := by
  induction first generalizing done with
  | nil => rw [List.nil_append, checkFields, pure_bind]
  | cons field first ih =>
      rw [List.cons_append, checkFields, checkFields]
      split <;> simp only [ih, bind_assoc]

theorem depth_of_declare {env : Env} {symbol : Symbol} {s t : State}
    (h : declare symbol env s = (.ok (), t)) : t.depth = s.depth := by
  unfold declare at h
  split at h
  · rename_i hdeclare
    cases h
    obtain ⟨-, rfl⟩ := Table.declare_eq_ok hdeclare
    exact Table.depth_append _ _
  · cases h

/-- The check of a type starts as `upToField` does and goes on with the other fields. Then the scope
is closed, and the type gets its fields. -/
theorem checkTypeDecl_eq_upToField (decl : TypeDecl) (count : Nat) (env : Env) (s : State) :
    checkTypeDecl decl env s = (do
      let done ← upToField decl count
      let fields ← checkFields (decl.fields.drop count) done
      modify (·.closeScope (s.depth + 1))
      modify fun state =>
        { state with table := state.table.update decl.name.name (Symbol.setFields fields) })
      env s := by
  let resolve : Check (List (String × Ty)) := do
    declareTypeParams decl.params
    checkFields decl.fields []
  have hresolve : resolve = (do
      declareTypeParams decl.params
      let done ← checkFields (decl.fields.take count) []
      checkFields (decl.fields.drop count) done) := by
    simp only [resolve, ← checkFields_append, List.take_append_drop]
  simp only [checkTypeDecl, upToField, bind_assoc]
  rw [bind_apply, bind_apply]
  rcases hdeclare : declare _ env s with ⟨diagnostic | _, t⟩
  · rfl
  · -- nothing cuts the resolving of fields short, so that the scope is closed in either way
    have hcomplete : Completes resolve :=
      (Completes.declareTypeParams _).bind fun _ => Completes.checkFields _ _
    obtain ⟨fields, hfields⟩ := hcomplete env t.openScope
    have hscope : (withScope resolve env t).1 = .ok fields := hfields
    calc
      _ = (withScope resolve >>= fun fields => modify fun state =>
            { state with table := state.table.update decl.name.name (Symbol.setFields fields) })
            env t := rfl
      _ = (resolve >>= fun fields => modify (·.closeScope t.openScope.depth) >>= fun _ =>
            modify fun state =>
              { state with table := state.table.update decl.name.name (Symbol.setFields fields) })
            env t.openScope := by
        rw [bind_of_ok hscope, bind_of_ok hfields]
        rfl
      _ = _ := by
        have hdepth : t.openScope.depth = s.depth + 1 :=
          congrArg (· + 1) (depth_of_declare hdeclare)
        rw [hdepth, hresolve]
        simp only [bind_assoc]
        rfl

/-- While the fields of a type are resolved, its parameters are types, and only they are open. -/
theorem all_upToField {env : Env} {s : State} (decl : TypeDecl) (count : Nat)
    (h : s.Proper env.language (Table.Proper env.language)) :
    (upToField decl count env s).2.table.All fun symbol =>
      symbol.ty.isClosed = true ∨ symbol.IsParamOf decl.params := by
  have hdeclare : Upholds env (declare
      { Symbol.composite decl.semantics decl.name.name [] decl.paramNames decl.name.span with
        visibility := decl.visibility }) := .declare ⟨rfl, fun _ => rfl⟩
  rw [upToField, bind_apply]
  rcases hrun : declare _ env s with ⟨diagnostic | _, t⟩
  · exact (hdeclare.after h hrun).table.mono fun _ hsymbol => .inl hsymbol.closed
  · have ht := (hdeclare.after h hrun).enterFields decl.params
    have hfields := ((inFields_ensures decl.params (decl.fields.take count)).left ht).table
    refine Table.all_iff.2 ⟨fun symbol hsymbol => .inr (hfields.params symbol hsymbol), ?_⟩
    exact fun scope hscope symbol hsymbol => .inl (hfields.outer scope hscope symbol hsymbol).closed

end Check

namespace Linked

variable {σ : Type}

/-- Whenever a piece of a program is checked, and after it has been checked, no type parameter is in
sight, whatever the program is and whatever its loader gives. While the fields of a type are resolved,
the parameters of that type are the only symbols whose types are not closed. -/
theorem params_stay_in_fields (settings : Settings)
    (load : String → StateM σ (Except LoadError Module)) (memory : σ) (program : Program) :
    let linked := (program.link load settings.language memory).1
    let env := linked.env settings
    (∀ s, Reachable settings linked s →
      s.ParamFree env ∧
      (∀ expr use, (checkExpr expr use env s).2.ParamFree env) ∧
      (∀ stmt, (checkStmt stmt env s).2.ParamFree env) ∧
      (∀ decl, (checkDecl decl env s).2.ParamFree env) ∧
      ∀ decl count, (upToField decl count env s).2.table.All fun symbol =>
        symbol.ty.isClosed = true ∨ symbol.IsParamOf decl.params) ∧
    (linked.analyze settings).table.All (·.ty.isClosed = true) := by
  intro linked env
  constructor
  · intro s hs
    have hproper := hs.proper
    refine ⟨hproper.paramFree, fun expr use => ?_, fun stmt => ?_, fun decl => ?_,
      fun decl count => all_upToField decl count hproper⟩
    · exact State.Proper.paramFree ((checkExpr_ensures expr use).left hproper)
    · exact State.Proper.paramFree ((checkStmt_ensures stmt).left hproper)
    · exact State.Proper.paramFree ((checkDecl_ensures decl).left hproper)
  · rw [analyze_eq]
    exact (proper_analyzed settings linked).table.mono fun _ hsymbol => hsymbol.closed

/-- A record `Pair` with a type parameter, and a routine that gives the first part of a pair of
numbers. -/
def pairing : Program :=
  [.decl (.type {
      semantics := .value
      name := ⟨"Pair", {}⟩
      params := [⟨"T", {}⟩]
      fields := [{ name := ⟨"first", {}⟩, type := .named {} ⟨"T", {}⟩ [] }] }),
    .decl (.routine {
      span := {}
      name := ⟨"first", {}⟩
      params := [⟨⟨"p", {}⟩, .named {} ⟨"Pair", {}⟩ [.named {} ⟨"s64", {}⟩ []]⟩]
      result := some (.named {} ⟨"s64", {}⟩ [])
      body := some [.give {} (some (.member {} (.ident {} "p") ⟨"first", {}⟩))] })]

/-- In particular where the parameter of `Pair` is in a field, and a number is taken out of it. -/
theorem params_stay_in_fields_pairing :
    let load : String → StateM Unit (Except LoadError Module) :=
      fun path => pure (.error (.notFound path))
    let linked := (pairing.link load .razorForge ()).1
    ∃ s, Reachable {} linked s ∧
      (s.table.find? "Pair").bind (·.fields?) = some [("first", .param "T")] ∧
      (checkExpr (.member {} (.ident {} "p") ⟨"first", {}⟩) .give (linked.env {}) s).1 =
        .ok (.num .s64) ∧
      s.ParamFree (linked.env {}) := by
  intro load linked
  have hvisited : ∃ s, Reachable {} linked s ∧
      (s.table.find? "Pair").bind (·.fields?) = some [("first", .param "T")] ∧
      (checkExpr (.member {} (.ident {} "p") ⟨"first", {}⟩) .give (linked.env {}) s).1 =
        .ok (.num .s64) := by
    have hstart : linked.start {} = initial.openScope := start_of_missing rfl
    have hitems : Visited {} linked (.items linked.items) initial.openScope := hstart ▸ .start
    refine ⟨_, ⟨_, .visit (.visit hitems (.otherItems rfl)) (.routineBody rfl rfl rfl)⟩, ?_, ?_⟩
    · rfl
    · rfl
  obtain ⟨s, hs, hfields, hfound⟩ := hvisited
  have hfree := (params_stay_in_fields {} load () pairing).1
  exact ⟨s, hs, hfields, hfound, (hfree s hs).1⟩

end Linked

end Custody
