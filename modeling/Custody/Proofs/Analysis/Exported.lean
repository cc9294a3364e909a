import Custody.Proofs.Analysis.Introduced
import Custody.Proofs.Analysis.Params
import Custody.Proofs.Check.Coherent
import Custody.Proofs.Check.Legible
import Custody.Proofs.Check.Passes
import Custody.Proofs.Scope.Hidden

/-! What a module exports and what its own analysis has found. Importers read the signatures of routines
and the fields of types off their text, without an analysis of the module. If the module has been
analysed without a report, and it gives no built-in type a new meaning, then what they read is what the
analysis has declared. -/

namespace Custody

theorem Symbol.Similar.eq_of_isVar {a b : Symbol} (h : Similar a b) (ha : a.isVar = false) :
    b = a := by
  obtain ⟨state, rfl⟩ := h
  rcases a with ⟨name, kind, ty, visibility, depth, span⟩
  cases kind with
  | var mutable old => cases ha
  | _ => rfl

/-! ### Scopes -/

namespace Scope

variable {before after : Scope} {name : String} {symbol : Symbol}

theorem get?_of_similar (h : List.Forall₂ Symbol.Similar before after)
    (hget : before.get? name = some symbol) (hvar : symbol.isVar = false) :
    after.get? name = some symbol := by
  have hrel := get?_changed Symbol.isChange_similar h name
  rw [hget] at hrel
  obtain ⟨changed, hchanged, hsimilar⟩ := Table.exists_of_rel_some hrel
  rw [hchanged, hsimilar.eq_of_isVar hvar]

theorem get?_append_new (h : symbol.name ∉ before.names) :
    Scope.get? (before ++ [symbol]) symbol.name = some symbol := by
  have hnone := notMem_names_iff.1 h
  unfold get? at hnone ⊢
  simp [List.find?_append, hnone]

end Scope

namespace Table

variable {table : Table} {params : List String} {name : String} {symbol : Symbol}

theorem find?_of_current (h : table.current.get? name = some symbol) :
    table.find? name = some symbol := by
  rw [find?_eq, h]
  rfl

theorem find?_push (table : Table) (name : String) : table.push.find? name = table.find? name := by
  rw [find?_eq, current_push, outer_push, findSome?_get?_cons, find?_eq table]
  rfl

theorem KeepsBuiltins.push (h : table.KeepsBuiltins) : table.push.KeepsBuiltins := by
  intro name hname
  rw [find?_push]
  exact h name hname

theorem KeepsBuiltins.append (h : table.KeepsBuiltins) (hsymbol : Ty.builtin? symbol.name = none) :
    (table.append symbol).KeepsBuiltins := by
  intro name hname
  have hne : symbol.name ≠ name := by
    rintro rfl
    rw [hsymbol] at hname
    cases hname
  rw [find?_append_of_ne hne]
  exact h name hname

theorem HasTypeParams.push (h : table.HasTypeParams params) : table.push.HasTypeParams params := by
  intro name
  rw [find?_push]
  exact h name

/-- A type parameter that is declared is one more. -/
theorem HasTypeParams.append (h : table.HasTypeParams params)
    (hnew : symbol.name ∉ table.current.names) (hsymbol : symbol.IsTypeParam) :
    (table.append symbol).HasTypeParams (params ++ [symbol.name]) := by
  intro name
  rw [List.mem_append, List.mem_singleton]
  by_cases hname : name = symbol.name
  · subst hname
    rw [find?_append_self (Scope.contains_eq_false_iff.2 hnew)]
    exact ⟨fun _ => ⟨symbol, rfl, hsymbol⟩, fun _ => .inr rfl⟩
  · rw [find?_append_of_ne (Ne.symm hname), ← h name, or_iff_left hname]

/-- Where all types are closed, no name stands for a type parameter. -/
theorem Proper.hasTypeParams {language : Language} (h : table.Proper language) :
    table.HasTypeParams [] := by
  intro name
  refine ⟨fun hmem => (by cases hmem), ?_⟩
  rintro ⟨symbol, hfind, hparam⟩
  have hclosed := (All.find? h hfind).closed
  rw [hparam.ty] at hclosed
  cases hclosed

end Table

namespace Check

variable {α : Type} {env : Env} {s t : State} {n : Nat} {params : List String}

theorem declFrame_growing : DeclFrame env Growing where
  toStmtFrame := stmtFrame_growing
  routine h := h
  fields := List.prefix_rfl

/-! ### Steps that pass -/

theorem passes_reporting {check : Check Unit} (hcheck : Keeps env (Growing n) check s) :
    Passes env (reporting check) s () t ↔ Passes env check s () t := by
  rw [reporting, passes_bind (.attempt frame_growing hcheck) fun _ _ _ => .pure frame_growing _]
  constructor
  · rintro ⟨found, u, hattempt, hpure⟩
    obtain ⟨-, rfl⟩ := passes_pure.1 hpure
    obtain ⟨_, -, hpasses⟩ := (passes_attempt hcheck).1 hattempt
    exact hpasses
  · intro h
    exact ⟨some (), t, (passes_attempt hcheck).2 ⟨(), rfl, h⟩, passes_pure.2 ⟨rfl, rfl⟩⟩

theorem passes_declare {symbol : Symbol} (h : Passes env (declare symbol) s () t) :
    symbol.name ∉ s.table.current.names ∧
      t = { s with table := s.table.append (symbol.declaredAt s.depth) } := by
  have hrun := h.1
  unfold declare at hrun
  split at hrun
  · rename_i hdeclare
    obtain ⟨hfree, rfl⟩ := Table.declare_eq_ok hdeclare
    cases hrun
    exact ⟨Scope.contains_eq_false_iff.1 hfree, rfl⟩
  · cases hrun

theorem passes_typeOrUnknown {type : TypeExpr} {ty : Ty}
    (h : Passes env (typeOrUnknown type) s ty t) : s.table.resolve type = .ok ty ∧ t = s := by
  have hresolve : Keeps env (Growing 0) (rule (·.table.resolve type)) s :=
    .rule frame_growing fun _ h => Table.resolve_error h
  rw [typeOrUnknown, passes_bind (.attempt frame_growing hresolve) fun _ _ _ =>
    .pure frame_growing _] at h
  obtain ⟨found, u, hattempt, hpure⟩ := h
  obtain ⟨rfl, rfl⟩ := passes_pure.1 hpure
  obtain ⟨ty, rfl, hrun, -⟩ := (passes_attempt hresolve).1 hattempt
  exact ⟨congrArg Prod.fst hrun, (congrArg Prod.snd hrun).symm⟩

/-- What is done in a scope of its own passes there. -/
theorem Passes.inScope {check : Check α} {a : α} (hcheck : Keeps env (Growing n) check s.openScope)
    (h : Passes env (withScope check) s a t) : ∃ u, Passes env check s.openScope a u := by
  obtain ⟨hrun, hsame⟩ := h
  rcases hinner : check env s.openScope with ⟨result, u⟩
  have hclosed : withScope check env s = (result, u.closeScope s.openScope.depth) := by
    rw [withScope, bracket, hinner]
  rw [hclosed] at hrun
  cases hrun
  refine ⟨u, hinner, ?_⟩
  exact ((eq_iff_of_prefixes (hcheck.related hinner) (diagnostics_le_closeScope u _)).1 hsame).1

/-! ### Routines -/

section

variable (hread : ∀ type ty, s.table.resolve type = .ok ty → type.written params = ty)
include hread

theorem passes_paramTypes {list : List Param} {tys : List Ty}
    (h : Passes env (paramTypes list) s tys t) :
    tys = list.map (·.type.written params) ∧ t = s := by
  induction list generalizing tys with
  | nil =>
      obtain ⟨rfl, rfl⟩ := passes_pure.1 h
      exact ⟨rfl, rfl⟩
  | cons param list ih =>
      rw [paramTypes, passes_bind (.typeOrUnknown frame_growing param.type) fun _ u _ =>
        .seq frame_growing (paramTypes_keeps frame_growing list u) fun _ _ _ =>
          .pure frame_growing _] at h
      obtain ⟨ty, u, htype, h⟩ := h
      obtain ⟨hresolve, rfl⟩ := passes_typeOrUnknown htype
      rw [passes_bind (paramTypes_keeps frame_growing list u) fun _ _ _ =>
        .pure frame_growing _] at h
      obtain ⟨tys, v, htypes, hpure⟩ := h
      obtain ⟨rfl, rfl⟩ := passes_pure.1 hpure
      obtain ⟨rfl, rfl⟩ := ih htypes
      exact ⟨by rw [List.map_cons, hread _ _ hresolve], rfl⟩

theorem passes_resultType {type : Option TypeExpr} {ty : Ty}
    (h : Passes env (resultType type) s ty t) :
    ty = (type.map (·.written params)).getD .blank ∧ t = s := by
  cases type with
  | none =>
      obtain ⟨rfl, rfl⟩ := passes_pure.1 h
      exact ⟨rfl, rfl⟩
  | some type =>
      obtain ⟨hresolve, rfl⟩ := passes_typeOrUnknown h
      exact ⟨(hread _ _ hresolve).symm, rfl⟩

/-- The types of fields are resolved one after the other, and no name comes twice. -/
theorem passes_checkFields {fields : List FieldDecl} {done found : List (String × Ty)}
    (h : Passes env (checkFields fields done) s found t) :
    found = done ++ fields.map fun field => (field.name.name, field.type.written params) := by
  induction fields generalizing done with
  | nil =>
      obtain ⟨rfl, rfl⟩ := passes_pure.1 h
      exact (List.append_nil _).symm
  | cons field fields ih =>
      rw [checkFields] at h
      split at h
      · refine absurd h (not_passes_report_bind (n := 0) rfl fun u => ?_)
        exact checkFields_keeps frame_growing fields done u
      · have hrest (ty : Ty) (u : State) : Keeps env (Growing 0) (do
            require (!ty.isToken) (.misuse (.tokenField field.name.name)) field.type.span
            checkFields fields (done ++ [(field.name.name, ty)])) u :=
          .seq frame_growing (.require frame_growing rfl) fun _ v _ =>
            checkFields_keeps frame_growing fields _ v
        rw [passes_bind (.typeOrUnknown frame_growing field.type) fun ty u _ => hrest ty u] at h
        obtain ⟨ty, u, htype, h⟩ := h
        obtain ⟨hresolve, rfl⟩ := passes_typeOrUnknown htype
        rw [passes_bind (n := 0) (.require frame_growing ?_) fun _ v _ =>
          checkFields_keeps frame_growing fields _ v] at h
        · obtain ⟨_, v, hrequire, h⟩ := h
          obtain ⟨-, rfl⟩ := passes_require.1 hrequire
          rw [ih h, List.append_assoc, List.map_cons, hread _ _ hresolve]
          rfl
        · rfl

end

/-- A routine that passes is declared with the signature that importers read off it. -/
theorem passes_declareRoutine {routine : Routine} {found : List Ty × Ty} (importer : Language)
    (hread : ∀ type ty, s.table.resolve type = .ok ty → type.written [] = ty)
    (h : Passes env (declareRoutine routine) s found t) :
    routine.name.name ∉ s.table.current.names ∧ t = { s with
      table := s.table.append (((Decl.routine routine).symbol importer).declaredAt s.depth) } := by
  obtain ⟨hrun, hsame⟩ := h
  obtain ⟨_, _, hlanguage, hrun⟩ := bind_eq_ok hrun
  cases hlanguage
  obtain ⟨_, u, hrequire, hrun⟩ := bind_eq_ok hrun
  obtain ⟨tys, v, hparams, hrun⟩ := bind_eq_ok hrun
  obtain ⟨ty, w, hresult, hrun⟩ := bind_eq_ok hrun
  obtain ⟨_, x, hdeclare, hpure⟩ := bind_eq_ok hrun
  cases hpure
  -- diagnostics are only added, so none of the steps has added one
  have hsu : Growing 0 s u := by
    refine Keeps.related (.require frame_growing ?_) hrequire
    rfl
  have huv : Growing 0 u v := (paramTypes_keeps frame_growing routine.params u).related hparams
  have hvw : Growing 0 v w := (resultType_keeps frame_growing routine.result).related hresult
  have hwt : Growing 1 w t :=
    Keeps.related (.declare stmtFrame_growing.toBlockFrame _) hdeclare
  obtain ⟨hu, hsame⟩ := (eq_iff_of_prefixes hsu (huv.trans (hvw.trans hwt))).1 hsame
  obtain ⟨hv, hsame⟩ := (eq_iff_of_prefixes huv (hvw.trans hwt)).1 hsame
  obtain ⟨hw, ht⟩ := (eq_iff_of_prefixes hvw hwt).1 hsame
  obtain ⟨-, rfl⟩ := passes_require.1 ⟨hrequire, hu⟩
  obtain ⟨rfl, rfl⟩ := passes_paramTypes hread ⟨hparams, hv⟩
  obtain ⟨rfl, rfl⟩ := passes_resultType hread ⟨hresult, hw⟩
  exact passes_declare ⟨hdeclare, ht⟩

theorem kept_inRoutine {result : Ty} {check : Check α} {found : Except Diagnostic α}
    (hrun : inRoutine result check env s = (found, t)) (hs : s.Sound)
    (h : Keeps env (Keeping Symbol.Similar n) check { s with result := some result, loops := 0 }) :
    State.Kept Symbol.Similar n s t := by
  have hkept := h.left hs
  obtain rfl : (inRoutine result check env s).2 = t := congrArg Prod.snd hrun
  exact ⟨hkept.table, hkept.ledger, hkept.modes, rfl, rfl, hkept.diagnostics⟩

/-- The body of a routine is checked behind its declaration, which stays. -/
theorem passes_checkRoutine {routine : Routine} (importer : Language) (hs : s.Sound)
    (hread : ∀ type ty, s.table.resolve type = .ok ty → type.written [] = ty)
    (h : Passes env (checkRoutine routine) s () t) :
    t.table.current.get? routine.name.name =
      some (((Decl.routine routine).symbol importer).declaredAt s.depth) := by
  obtain ⟨hrun, hsame⟩ := h
  obtain ⟨⟨tys, ty⟩, u, hdeclare, hbody⟩ := bind_eq_ok hrun
  have hdeclared := (declareRoutine_keeps stmtFrame_similar routine).related hdeclare hs
  have hkept : State.Kept Symbol.Similar 0 u t := by
    cases hroutine : routine.body with
    | none =>
        simp only [hroutine] at hbody
        obtain rfl : u = t := congrArg Prod.snd hbody
        exact .refl Symbol.isChange_similar _
    | some body =>
        simp only [hroutine] at hbody
        exact kept_inRoutine hbody (hdeclared.sound hs)
          (checkBody_keeps stmtFrame_similar _ routine.usurping body)
  obtain ⟨earlier, hearlier, -⟩ := hdeclared.diagnostics
  obtain ⟨later, hlater, -⟩ := hkept.diagnostics
  obtain ⟨hu, -⟩ := (eq_iff_of_prefixes ⟨earlier, hearlier.symm⟩ ⟨later, hlater.symm⟩).1 hsame
  obtain ⟨hnew, rfl⟩ := passes_declareRoutine importer hread ⟨hdeclare, hu⟩
  refine Scope.get?_of_similar hkept.table.forall₂_current ?_ rfl
  rw [Table.current_append]
  exact Scope.get?_append_new hnew

/-! ### Types -/

/-- The type parameters that are declared are the ones that the table has then. -/
theorem passes_declareTypeParams {list : List Ident}
    (hreserved : ∀ param ∈ list, Ty.builtin? param.name = none)
    (hkeeps : s.table.KeepsBuiltins) (hparams : s.table.HasTypeParams params)
    (h : Passes env (declareTypeParams list) s () t) :
    t.table.KeepsBuiltins ∧ t.table.HasTypeParams (params ++ list.map (·.name)) := by
  induction list generalizing s params with
  | nil =>
      obtain ⟨-, rfl⟩ := passes_pure.1 h
      exact ⟨hkeeps, by simpa using hparams⟩
  | cons param list ih =>
      obtain ⟨hparam, hrest⟩ := List.forall_mem_cons.1 hreserved
      have hdeclare : Keeps env (Growing 1)
          (declare (Symbol.basic param.name (.param param.name) param.span)) s :=
        .declare stmtFrame_growing.toBlockFrame _
      rw [declareTypeParams, passes_bind (.reporting frame_growing hdeclare) fun _ u _ =>
        declareTypeParams_keeps stmtFrame_growing list u] at h
      obtain ⟨_, u, hfirst, h⟩ := h
      obtain ⟨hnew, rfl⟩ := passes_declare ((passes_reporting hdeclare).1 hfirst)
      let symbol := (Symbol.basic param.name (.param param.name) param.span).declaredAt s.depth
      have hfresh : symbol.name ∉ s.table.current.names := hnew
      have hmore := ih hrest (hkeeps.append hparam) (hparams.append hfresh ⟨rfl, rfl⟩) h
      rwa [List.append_assoc] at hmore

/-- The fields of a type that passes are resolved to what importers read off them. They are set after
its declaration, and under its name nothing else is found then. -/
theorem passes_checkTypeDecl {decl : TypeDecl} (importer : Language) (hs : s.Faithful)
    (hproper : s.table.Proper env.language) (hkeeps : s.table.KeepsBuiltins)
    (hname : Ty.builtin? decl.name.name = none)
    (hreserved : ∀ param ∈ decl.params, Ty.builtin? param.name = none)
    (h : Passes env (checkTypeDecl decl) s () t) :
    t.table.current.get? decl.name.name =
      some (((Decl.type decl).symbol importer).declaredAt s.depth) := by
  obtain ⟨hrun, hsame⟩ := h
  obtain ⟨_, u, hdeclare, hrun⟩ := bind_eq_ok hrun
  obtain ⟨fields, v, hfields, hset⟩ := bind_eq_ok hrun
  cases hset
  have hu : u.Faithful := (declareType_faithful decl).after hs hdeclare
  have hkept : State.Kept Symbol.Similar 0 u v :=
    (withFields_keeps stmtFrame_similar decl).related hfields hu.sound
  have hsu : Growing 1 s u :=
    Keeps.related (.declare stmtFrame_growing.toBlockFrame _) hdeclare
  obtain ⟨new, hnew, -⟩ := hkept.diagnostics
  obtain ⟨hsilent, hv⟩ := (eq_iff_of_prefixes hsu ⟨new, hnew.symm⟩).1 hsame
  obtain ⟨hfree, rfl⟩ := passes_declare ⟨hdeclare, hsilent⟩
  -- the scope in which the fields are resolved has the type parameters and nothing else
  obtain ⟨w, hinside⟩ := Passes.inScope (.followedBy frame_growing
    (declareTypeParams_keeps stmtFrame_growing decl.params _) fun _ x _ =>
      checkFields_keeps frame_growing decl.fields [] x) ⟨hfields, hv⟩
  rw [passes_bind (declareTypeParams_keeps stmtFrame_growing decl.params _) fun _ x _ =>
    checkFields_keeps frame_growing decl.fields [] x] at hinside
  obtain ⟨_, x, hparams, hchecked⟩ := hinside
  have hclosed : (s.table.append (Symbol.declaredAt { Symbol.composite decl.semantics
      decl.name.name [] decl.paramNames decl.name.span with visibility := decl.visibility }
      s.depth)).Proper env.language := Table.All.append hproper ⟨rfl, fun _ => rfl⟩
  obtain ⟨hbuiltins, htypeparams⟩ := passes_declareTypeParams hreserved
    (hkeeps.append hname).push hclosed.hasTypeParams.push hparams
  have hx : x.Faithful :=
    (declareTypeParams_faithful decl.params).after (lasting_faithful.scope hu) hparams.1
  obtain rfl : fields = decl.signature :=
    passes_checkFields (hx.legible hbuiltins _ htypeparams) hchecked
  have hstub := Scope.get?_of_similar hkept.table.forall₂_current
    (by rw [Table.current_append]; exact Scope.get?_append_new hfree) rfl
  have hmem : decl.name.name ∈ v.table.current.names := Scope.mem_names_iff.2 ⟨_, hstub⟩
  rw [(Table.update_of_mem_current _ hmem).1, Scope.get?_update (Symbol.name_setFields _)]
  exact congrArg (Option.map (Symbol.setFields decl.signature)) hstub

/-- A routine or a type that passes is declared as importers see it. -/
theorem passes_checkDecl {decl : Decl} (importer : Language) (hs : s.Faithful)
    (hproper : s.table.Proper env.language) (hkeeps : s.table.KeepsBuiltins)
    (hname : Ty.builtin? decl.name.name = none)
    (hreserved : ∀ type, decl = .type type → ∀ param ∈ type.params, Ty.builtin? param.name = none)
    (hvar : (decl.symbol importer).isVar = false) (h : Passes env (checkDecl decl) s () t) :
    t.table.current.get? decl.name.name = some ((decl.symbol importer).declaredAt s.depth) := by
  cases decl with
  | routine routine =>
      exact passes_checkRoutine importer hs.sound (hs.legible hkeeps [] hproper.hasTypeParams) h
  | type type =>
      exact passes_checkTypeDecl importer hs hproper hkeeps hname (hreserved type rfl) h
  | var decl => cases hvar

end Check

/-! ### Programs -/

/-- What an importer reads as a built-in type is one. -/
theorem Table.exists_get?_builtins {name : String} (h : (Ty.builtin? name).isSome = true) :
    ∃ symbol, builtins.get? name = some symbol ∧ symbol.isVar = false := by
  have hvars : ∀ symbol ∈ builtins, symbol.isVar = false := by decide +kernel
  have hnames : builtins.names = Primitive.all.map Primitive.render ++ ["Blank", "Text"] := rfl
  have hmem : name ∈ builtins.names := by
    rw [hnames, List.mem_append]
    by_cases hblank : name = "Blank"
    · exact .inr (by simp [hblank])
    · rw [Ty.builtin?, if_neg hblank, Option.or_none, Option.isSome_map] at h
      obtain ⟨p, hp⟩ := Option.isSome_iff_exists.1 h
      refine .inl (List.mem_map.2 ⟨p, List.mem_of_find?_eq_some hp, ?_⟩)
      simpa using List.find?_some hp
  obtain ⟨symbol, hget⟩ := Scope.mem_names_iff.1 hmem
  exact ⟨symbol, hget, hvars symbol (List.mem_of_find?_eq_some hget)⟩

namespace Linked

open Check

variable {settings : Settings} {linked : Linked} {before after : List LinkedItem}
  {item : LinkedItem}

theorem table_analyze (settings : Settings) (linked : Linked) :
    (linked.analyze settings).table = (linked.reached settings linked.items).table := by
  rw [analyze_eq]
  rfl

theorem reached_rest (settings : Settings) (linked : Linked) (before after : List LinkedItem) :
    linked.reached settings (before ++ after) =
      (checkItems after (linked.env settings) (linked.reached settings before)).2 := by
  rw [reached, checkItems_append]
  rfl

theorem diagnostics_reached (settings : Settings) (linked : Linked) (before after : List LinkedItem) :
    (linked.reached settings before).diagnostics <+:
      (linked.reached settings (before ++ after)).diagnostics := by
  have hkeeps : Keeps (linked.env settings) (AtSome Growing) (checkItems after)
      (linked.reached settings before) := checkItems_keeps declFrame_growing after _
  obtain ⟨_, hgrowing⟩ := hkeeps.left
  rw [reached_rest]
  exact hgrowing

/-- In an analysis that reports nothing, every item passes where it stands. -/
theorem passes_of_isOk (hok : (linked.analyze settings).isOk = true)
    (hitems : linked.items = before ++ item :: after) :
    Passes (linked.env settings) (checkItem item) (linked.reached settings before) ()
      (linked.reached settings (before ++ [item])) := by
  have hfinal : (linked.reached settings linked.items).diagnostics = [] := by
    rw [analyze_eq] at hok
    exact List.isEmpty_iff.1 hok
  have hsilent (first rest : List LinkedItem) (h : linked.items = first ++ rest) :
      (linked.reached settings first).diagnostics = [] := by
    have hgrown := diagnostics_reached settings linked first rest
    rw [← h, hfinal] at hgrown
    exact List.prefix_nil.1 hgrown
  have hkeeps : Keeps (linked.env settings) (AtSome Growing) (checkItem item)
      (linked.reached settings before) := checkItem_keeps declFrame_growing item
  obtain ⟨n, hgrowing⟩ := hkeeps.left
  have hitem : Keeps (linked.env settings) (Growing n) (checkItem item)
      (linked.reached settings before) := ⟨hgrowing, hkeeps.fault⟩
  refine (passes_reporting hitem).1 ⟨?_, ?_⟩
  · rw [reached_rest, checkItems_cons]
    exact Prod.ext (reporting_ok _ _ _) rfl
  · rw [hsilent before (item :: after) hitems, hsilent (before ++ [item]) after (by simp [hitems])]

/-- The items of a program leave the root scope alone, so only the names in their own scope matter. -/
theorem keepsBuiltins_reached (settings : Settings) (linked : Linked) (items : List LinkedItem)
    (h : ∀ name ∈ (linked.reached settings items).table.current.names, Ty.builtin? name = none) :
    (linked.reached settings items).table.KeepsBuiltins := by
  intro name hname
  obtain ⟨symbol, hget, hvar⟩ := Table.exists_get?_builtins hname
  have houter := (reached_gains settings linked items).outer
  rw [(start_scopes settings linked).2] at houter
  obtain ⟨root, rest, hroot, hrest, hsplit⟩ := List.forall₂_cons_left_iff.1 houter
  obtain rfl := List.forall₂_nil_left_iff.1 hrest
  have hnone : (linked.reached settings items).table.current.get? name = none := by
    refine Scope.notMem_names_iff.1 fun hmem => ?_
    rw [h name hmem] at hname
    cases hname
  rw [Table.find?_eq, hnone, hsplit, List.findSome?_singleton, hget]
  exact Scope.get?_of_similar hroot (Scope.get?_append hget) hvar

theorem depth_reached (settings : Settings) (linked : Linked) (items : List LinkedItem) :
    (linked.reached settings items).depth = 1 := by
  have hlength := (reached_gains settings linked items).outer.length_eq
  rw [(start_scopes settings linked).2] at hlength
  rw [State.depth, Table.depth_eq_length_outer, ← hlength]
  rfl

/-- Behind some items, the others are checked in the state that has been reached. -/
theorem Visited.otherItems {s : State} (h : Visited settings linked (.items (before ++ after)) s) :
    Visited settings linked (.items after) (checkItems before (linked.env settings) s).2 := by
  induction before generalizing s with
  | nil => exact h
  | cons item before ih =>
      rw [checkItems_cons]
      exact ih (.visit h (.otherItems (Prod.ext (reporting_ok _ _ _) rfl)))

/-- What some items have put into the scope of the program is there in the end. -/
theorem mem_names_reached {name : String} (hitems : linked.items = before ++ after)
    (h : name ∈ (linked.reached settings before).table.current.names) :
    name ∈ (linked.analyze settings).table.current.names := by
  obtain ⟨kept, late, hcurrent, hkept⟩ := reached_append settings linked before after
  have hkeptNames := Scope.names_eq_of_heading (Scope.map_heading_of_similar hkept)
  rw [← hkeptNames] at h
  rw [table_analyze, hitems, hcurrent, Scope.names, List.map_append, List.mem_append]
  exact .inl h

/-- A declaration puts its name into the scope. -/
theorem mem_names_analyze {decl : Decl} (h : .decl decl ∈ linked.items) :
    decl.name.name ∈ (linked.analyze settings).table.current.names := by
  have hname : (decl.symbol settings.language).name = decl.name.name := by cases decl <;> rfl
  have hintroduced : decl.symbol settings.language ∈
      linked.items.flatMap (·.introduced settings.language) :=
    List.mem_flatMap.2 ⟨_, h, List.mem_singleton_self _⟩
  rw [table_analyze, Scope.names_eq_of_heading (headings_reached settings linked linked.items),
    Scope.mem_names_iff, Scope.get?_firsts, ← Scope.mem_names_iff]
  exact List.mem_map.2 ⟨_, hintroduced, hname⟩

/-- A routine or a type of a program whose analysis reports nothing is in its scope as importers see
it. -/
theorem find?_of_isOk {decl : Decl} (importer : Language)
    (hok : (linked.analyze settings).isOk = true)
    (hnames : ∀ name ∈ (linked.analyze settings).table.current.names, Ty.builtin? name = none)
    (hreserved : ∀ type, decl = .type type → ∀ param ∈ type.params, Ty.builtin? param.name = none)
    (hvar : (decl.symbol importer).isVar = false) (hdecl : .decl decl ∈ linked.items) :
    (linked.analyze settings).table.find? decl.name.name =
      some ((decl.symbol importer).declaredAt 1) := by
  obtain ⟨before, after, hitems⟩ := List.append_of_mem hdecl
  have hreachable : Reachable settings linked (linked.reached settings before) := by
    have hstart : Visited settings linked (.items linked.items) (linked.start settings) := .start
    rw [hitems] at hstart
    exact ⟨_, hstart.otherItems⟩
  have hbuiltins : (linked.reached settings before).table.KeepsBuiltins :=
    keepsBuiltins_reached settings linked before fun name hname =>
      hnames name (mem_names_reached hitems hname)
  have hdeclared := passes_checkDecl importer hreachable.faithful hreachable.proper.table hbuiltins
    (hnames _ (mem_names_analyze hdecl)) hreserved hvar
    (passes_of_isOk hok hitems)
  rw [depth_reached] at hdeclared
  obtain ⟨kept, late, hcurrent, hkept⟩ :=
    reached_append settings linked (before ++ [.decl decl]) after
  rw [← List.append_cons, ← hitems] at hcurrent
  apply Table.find?_of_current
  rw [table_analyze, hcurrent]
  exact Scope.get?_append (Scope.get?_of_similar hkept hdeclared hvar)

end Linked

theorem Check.upToField_faithful {env : Env} (decl : TypeDecl) (count : Nat) :
    Leaves env State.Faithful (upToField decl count) :=
  (declareType_faithful decl).seq fun _ => (Maintains.modify fun _ hs =>
    lasting_faithful.scope hs).seq fun _ => (declareTypeParams_faithful decl.params).seq fun _ =>
      lasting_faithful.of_keeps fun s => checkFields_keeps frame_similar _ [] s

/-- The declarations of a program are linked as they are. -/
theorem Program.mem_items_link {σ : Type} {program : Program} {decl : Decl}
    (h : decl ∈ program.decls) (load : String → StateM σ (Except LoadError Module))
    (language : Language) (memory : σ) :
    .decl decl ∈ (program.link load language memory).1.items := by
  obtain ⟨item, hitem, hdecl⟩ := List.mem_filterMap.1 h
  rw [← (items_link load language program memory).1] at hitem
  obtain ⟨found, hfound, rfl⟩ := List.mem_map.1 hitem
  cases found with
  | load request answer => cases hdecl
  | decl declared =>
      cases hdecl
      exact hfound

namespace Linked

open Check

/-- Whatever the program is and whatever its loader gives: in every table of its analysis in which the
names of the built-in types stand for them, a type expression that means a type means what an importer
reads off it, among others where the fields of a type are resolved. If the analysis reports nothing and
no declaration takes the name of a built-in type, then the routines and the types of the program have
been declared as importers see them. -/
theorem exported_as_declared {σ : Type} (settings : Settings)
    (load : String → StateM σ (Except LoadError Module)) (memory : σ) (program : Program) :
    let linked := (program.link load settings.language memory).1
    let env := linked.env settings
    let analysis := linked.analyze settings
    (∀ s, Reachable settings linked s →
      s.table.Legible ∧
      (∀ expr use, (checkExpr expr use env s).2.table.Legible) ∧
      (∀ stmt, (checkStmt stmt env s).2.table.Legible) ∧
      (∀ decl, (checkDecl decl env s).2.table.Legible) ∧
      ∀ decl count, (upToField decl count env s).2.table.Legible) ∧
    analysis.table.Legible ∧
    (analysis.isOk = true →
      (∀ name ∈ analysis.table.current.names, Ty.builtin? name = none) →
      (∀ type, .type type ∈ program.decls → ∀ name ∈ type.paramNames, Ty.builtin? name = none) →
      ∀ decl ∈ program.decls, ∀ importer, (decl.symbol importer).isVar = false →
        analysis.table.find? decl.name.name = some ((decl.symbol importer).declaredAt 1)) := by
  intro linked env analysis
  refine ⟨fun s hs => ?_, ?_, fun hok hnames hparams decl hdecl importer hvar => ?_⟩
  · have hfaithful := hs.faithful
    refine ⟨hfaithful.legible, fun expr use => ?_, fun stmt => ?_, fun decl => ?_,
      fun decl count => ?_⟩
    · exact ((lasting_faithful.checkExpr expr use).left hfaithful).legible
    · exact ((lasting_faithful.checkStmt lasting_faithful.checkVar stmt).left hfaithful).legible
    · exact ((checkDecl_faithful decl).left hfaithful).legible
    · exact ((upToField_faithful decl count).left hfaithful).legible
  · rw [table_analyze]
    exact (faithful_analyzed settings linked).legible
  · refine find?_of_isOk importer hok hnames ?_ hvar
      (Program.mem_items_link hdecl load settings.language memory)
    rintro type rfl param hparam
    exact hparams type hdecl param.name (List.mem_map_of_mem hparam)

/-- A record of a value and more of its kind. -/
def chain : TypeDecl where
  semantics := .value
  name := ⟨"Chain", {}⟩
  params := [⟨"T", {}⟩]
  fields :=
    [{ name := ⟨"value", {}⟩, type := .named {} ⟨"T", {}⟩ [] },
      { name := ⟨"rest", {}⟩, type := .named {} ⟨"Chain", {}⟩ [.named {} ⟨"T", {}⟩ []] }]
  visibility := .exported

/-- A routine that takes a chain of numbers without owning it. -/
def chainLength : Routine where
  span := {}
  name := ⟨"length", {}⟩
  params := [⟨⟨"chain", {}⟩,
    .named {} ⟨"Viewed", {}⟩ [.named {} ⟨"Chain", {}⟩ [.named {} ⟨"s64", {}⟩ []]]⟩]
  result := some (.named {} ⟨"u64", {}⟩ [])
  body := none
  visibility := .exported

/-- The record and the routine are exported as they have been declared. While the fields of the record
are resolved, its parameter is a type, and so is a chain of it. -/
theorem exported_as_declared_chain :
    let load : String → StateM Unit (Except LoadError Module) :=
      fun path => pure (.error (.notFound path))
    let program : Program := [.decl (.type chain), .decl (.routine chainLength)]
    let linked := (program.link load .razorForge ()).1
    let analysis := linked.analyze {}
    let inFields := (upToField chain 1 (linked.env {}) (linked.start {})).2.table
    let more : TypeExpr := .named {} ⟨"Chain", {}⟩ [.named {} ⟨"T", {}⟩ []]
    analysis.isOk = true ∧ (∀ name ∈ analysis.table.current.names, Ty.builtin? name = none) ∧
      analysis.table.find? "Chain" = some (((Decl.type chain).symbol .razorForge).declaredAt 1) ∧
      analysis.table.find? "length" =
        some (((Decl.routine chainLength).symbol .razorForge).declaredAt 1) ∧
      inFields.KeepsBuiltins ∧ inFields.HasTypeParams ["T"] ∧
      inFields.resolve more = .ok (.named "Chain" [.param "T"]) ∧
      more.written ["T"] = .named "Chain" [.param "T"] := by
  intro load program linked analysis inFields more
  have hstart : linked.start {} = initial.openScope := start_of_missing rfl
  have hok : analysis.isOk = true := by decide +kernel
  have hnames : ∀ name ∈ analysis.table.current.names, Ty.builtin? name = none := by
    decide +kernel
  have hparams : ∀ type, .type type ∈ program.decls → ∀ name ∈ type.paramNames,
      Ty.builtin? name = none := by
    intro type htype
    obtain rfl : type = chain := by simpa [program, Program.decls] using htype
    decide +kernel
  obtain ⟨hlegible, -, hexported⟩ := exported_as_declared {} load () program
  -- what the scopes have when the first field has been resolved
  let record : Symbol :=
    { Symbol.composite .value "Chain" [] ["T"] {} with visibility := .exported, depth := 1 }
  let param : Symbol := { Symbol.basic "T" (.param "T") {} with depth := 2 }
  have hinside : inFields = (initial.openScope.table.append record).push.append param := by
    simp only [inFields, hstart]
    rfl
  have hroot : initial.openScope.table.KeepsBuiltins := fun _ _ => rfl
  have hkeeps : inFields.KeepsBuiltins := by
    rw [hinside]
    exact (hroot.append (by decide)).push.append (by decide)
  have hclosed : (initial.openScope.table.append record).Proper .razorForge :=
    Table.All.append (Table.proper_initial _).push ⟨rfl, fun _ => rfl⟩
  have htypeparams : inFields.HasTypeParams ["T"] := by
    rw [hinside]
    exact hclosed.hasTypeParams.push.append List.not_mem_nil ⟨rfl, rfl⟩
  have hresolve : inFields.resolve more = .ok (.named "Chain" [.param "T"]) := by
    rw [hinside]
    rfl
  refine ⟨hok, hnames, ?_, ?_, hkeeps, htypeparams, hresolve, ?_⟩
  · exact hexported hok hnames hparams (.type chain) (by simp [program, Program.decls]) _ rfl
  · exact hexported hok hnames hparams (.routine chainLength) (by simp [program, Program.decls]) _ rfl
  · exact (hlegible _ ⟨_, .start⟩).2.2.2.2 chain 1 hkeeps _ htypeparams _ _ hresolve

end Linked

end Custody
