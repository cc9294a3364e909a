import Custody.Check.Decl
import Custody.Proofs.Check.Coupling

/-! The two runs of a check of an expression are coupled, and those of the rules and of the accesses
that it goes through. Every name in the expression is one that both runs see. What a rule looks at is
the same in both runs but for the variables that have been moved on the left, and there the left run is
spoiled. -/

namespace Custody.Coupling

open Check

variable {c : Coupling} {n : Nat} {α : Type}

/-! ### Rules -/

theorem resolve_agrees {type : TypeExpr} (h : ∀ name ∈ type.names, c.Sees name) :
    c.Agrees n (rule (·.table.resolve type)) :=
  .rule (fun _ _ hst => Table.resolve_similar fun name hname => hst.find?_similar (h name hname))
    fun _ _ h => Table.resolve_ordinary h

theorem typeOrUnknown_agrees {type : TypeExpr} (h : ∀ name ∈ type.names, c.Sees name) :
    c.Agrees n (typeOrUnknown type) :=
  (resolve_agrees h).attempt.bind fun _ => .pure rfl

theorem memberType_agrees (object : Ty) {property : Ident} (h : c.Sees property.name) :
    c.Agrees n (memberType object property) :=
  .rule (fun _ _ hst => hst.table.memberType h object) fun _ _ h => Table.memberType_ordinary h

/-- The rules for the use of a variable look at the state of the variable first, and else at nothing
in which the runs differ. -/
theorem Alike.checkUse_eq {s t : State} {a b : Symbol} (hst : c.Alike s t) (hab : a.Similar b)
    (hmoved : b.isMoved = a.isMoved) (use : Use) : t.checkUse b use = s.checkUse a use := by
  obtain ⟨state, rfl⟩ := hab
  unfold State.checkUse
  simp only [hmoved, hst.ledger, hst.modes, hst.depth_eq, Symbol.name_setState, Symbol.key_setState,
    Symbol.access?_setState, Symbol.depth_setState]

theorem isUnsupported_of_checkUse {s : State} {symbol : Symbol} {use : Use} {fault : Fault}
    (h : s.checkUse symbol use = .error fault) : fault.isUnsupported = false := by
  cases hmoved : symbol.isMoved with
  | true =>
      rw [State.checkUse, hmoved, if_pos rfl] at h
      cases h
      rfl
  | false => exact (State.checkUse_ordinary hmoved h).supported

theorem useSymbol_couples {a b : Symbol} (hab : c.Same a b) (use : Use) (span : Span) :
    c.Couples n Eq (useSymbol a use span) (useSymbol b use span) := by
  refine .state fun s t hst => ?_
  rcases hab.moved with hmoved | ⟨hcrosses, hmoved⟩
  · rw [hst.checkUse_eq hab.similar hmoved]
    exact .judge (fun _ h => isUnsupported_of_checkUse h) (c.reading.places_refl span)
  · rw [State.checkUse, hmoved, if_pos rfl]
    exact .spoil hcrosses rfl

theorem takeOver_of_none {value : Expr} (h : value.asIdent = none) : takeOver value = pure () := by
  unfold takeOver
  rw [h]
  rfl

theorem takeOver_apply {value : Expr} {name : String} {symbol : Symbol} {s : State}
    (hname : value.asIdent = some name) (hfind : s.table.find? name = some symbol) (env : Env) :
    takeOver value env s = (.ok (), if s.table.isMovable symbol then
      { s with table := s.table.takenOver env.language name } else s) := by
  simp only [takeOver, hname, hfind, setState_of_find? hfind, Table.takenOver]
  cases env.language.moves <;> cases s.table.isMovable symbol <;> rfl

/-- A value is taken over in both runs, and moved away in those whose language moves. It is taken over
by its name, which is the same without parentheses. -/
theorem takeOver_couples {value : Expr} (h : ∀ name ∈ value.names, c.Sees name) :
    c.Couples n Eq (takeOver value) (takeOver (c.reading.expr value)) := by
  have hright := c.reading.asIdent_expr value
  cases hname : value.asIdent with
  | none =>
      rw [takeOver_of_none hname, takeOver_of_none (hright.trans hname)]
      exact .pure rfl
  | some name =>
      rw [hname] at hright
      have hsees := h name (Expr.mem_names_of_asIdent hname)
      refine ⟨fun s => ?_, fun {s t} hst => .inr ?_⟩
      · cases hfind : s.table.find? name with
        | none =>
            simp only [takeOver, hname, hfind]
            exact List.prefix_rfl
        | some symbol =>
            rw [takeOver_apply hname hfind]
            split <;> exact List.prefix_rfl
      · rcases rel_cases (hst.alike.find? hsees) with ⟨hleft, hleft'⟩ | ⟨a, b, ha, hb, hab⟩
        · simp only [takeOver, hname, hright, hleft, hleft']
          exact ⟨.ok rfl, hst⟩
        · rw [takeOver_apply hname ha, takeOver_apply hright hb, hst.alike.isMovable_eq hab.similar]
          split
          · exact ⟨.ok rfl, hst.withTable (c.takenOver hst.table hsees)⟩
          · exact ⟨.ok rfl, hst⟩

theorem elementType_couples (object position : Ty) {positionSpan positionSpan' : Span} (span : Span)
    (h : c.reading.Places positionSpan positionSpan') :
    c.Couples n Eq (elementType object position positionSpan span)
      (elementType object position positionSpan' span) := by
  unfold elementType
  simp only
  split
  · exact .fail rfl h
  · split
    · exact .pure rfl
    · exact .fail rfl (c.reading.places_refl span)

/-- Both runs find the same in a module that they both know. -/
theorem moduleMember_agrees {path : String} (hpath : c.Knows path) (property : Ident) :
    c.Agrees n (moduleMember path property) := by
  refine .surroundings ?_
  rw [hpath]
  split
  · exact .pure rfl
  · exact .fail rfl (c.reading.places_refl property.span)

theorem moduleMember_apply (path : String) (property : Ident) (env : Env) (s : State) :
    ∃ result, moduleMember path property env s = (result, s) := by
  simp only [moduleMember, bind_apply, Check.env]
  cases env.member? path property.name with
  | none => exact ⟨_, rfl⟩
  | some symbol => exact ⟨_, rfl⟩

/-! ### Access -/

/-- A variable that is declared has its value. -/
theorem suits_var (name : String) (ty : Ty) (mutable : Bool) (span : Span) :
    c.Suits (Symbol.var name ty mutable span) :=
  ⟨fun _ => rfl, fun _ h => nomatch h⟩

theorem declareToken_agrees {token : Ident} (h : c.Sees token.name) (kind : Access) (inner : Ty) :
    c.Agrees n (declareToken token kind inner) :=
  .reporting (.declare h (suits_var _ _ _ _))

theorem accessSource_couples (kind : Access) {source : Ident} (h : c.Sees source.name) :
    c.Couples n (Option.Rel c.Same) (accessSource kind source) (accessSource kind source) := by
  have hplace := c.reading.places_refl source.span
  refine .state fun s t hst => ?_
  rcases rel_cases (hst.find? h) with ⟨hleft, hright⟩ | ⟨a, b, hleft, hright, hab⟩
  · simp only [hleft, hright]
    exact (Couples.report rfl hplace).bind fun _ => .pure .none
  · have hvar : b.isVar = a.isVar := by
      obtain ⟨state, rfl⟩ := hab.similar
      exact Symbol.isVar_setState state a
    simp only [hleft, hright, hvar]
    split
    · exact .pure (.some hab)
    · exact (Couples.report rfl hplace).bind fun _ => .pure .none

theorem checkReborrow_couples {a b : Symbol} (hab : a.Similar b) (kind : Access) (source : Ident) :
    c.Couples n Eq (checkReborrow a kind source) (checkReborrow b kind source) := by
  obtain ⟨state, rfl⟩ := hab
  simp only [checkReborrow, Symbol.access?_setState]
  split
  · exact .require rfl (c.reading.places_refl source.span)
  · exact .pure rfl

theorem enterAccess_couples {a b : Symbol} (hab : a.Similar b) (kind : Access)
    (source token : Ident) :
    c.Couples n Eq (enterAccess a kind source token) (enterAccess b kind source token) := by
  obtain ⟨state, rfl⟩ := hab
  constructor
  · intro s
    unfold enterAccess
    split
    · exact List.prefix_rfl
    · exact List.prefix_append _ _
  · intro s t hst
    refine .inr ?_
    simp only [enterAccess, Symbol.key_setState, hst.ledger, hst.depth_eq]
    rcases s.ledger.begin a.key token.name kind s.depth token.span with ⟨violation | key, ledger⟩
    · have hentered : c.Related n { s with ledger } { t with ledger } :=
        ⟨hst.table, rfl, hst.modes, hst.loops, hst.result, hst.reports⟩
      exact ⟨.ok rfl, hentered.report (c.reading.matches_refl _)
        (Pairing.shares_of_supported (Fault.ofViolation_ordinary violation).supported)⟩
    · exact ⟨.ok rfl, hst.table, rfl, hst.modes, hst.loops, hst.result, hst.reports⟩

/-- A variable that has been moved away is reported by the left run; the right one goes on. -/
theorem requireLive_couples {a b : Symbol} (hab : c.Same a b) (name : String) (span : Span) :
    c.Couples n Eq (require (!a.isMoved) (.useAfterMove name) span)
      (require (!b.isMoved) (.useAfterMove name) span) := by
  rcases hab.moved with hmoved | ⟨hcrosses, hmoved⟩
  · rw [hmoved]
    exact .require rfl (c.reading.places_refl span)
  · rw [hmoved]
    refine ⟨fun s => List.prefix_append s.diagnostics _, fun _ => .inl ?_⟩
    exact .reported hcrosses (List.mem_append_right _ (List.mem_singleton_self _)) rfl

theorem beginAccess_agrees (kind : Access) {source token : Ident} (hsource : c.Sees source.name)
    (htoken : c.Sees token.name) : c.Agrees n (beginAccess kind source token) := by
  refine .state fun s t hst => ?_
  rw [hst.modes]
  refine (Couples.require rfl (c.reading.places_refl token.span)).bind fun _ => ?_
  refine (accessSource_couples kind hsource).bindOn (rel_refl Pairing.Same.refl)
    fun found found' hfound => ?_
  rcases rel_cases hfound with ⟨rfl, rfl⟩ | ⟨a, b, rfl, rfl, hab⟩
  · exact (declareToken_agrees htoken kind .unknown).bind fun _ => .pure rfl
  · simp only [hab.ty_eq]
    refine (requireLive_couples hab _ _).bind fun _ => ?_
    refine (checkReborrow_couples hab.similar kind source).bind fun _ => ?_
    refine (enterAccess_couples hab.similar kind source token).bind fun opened => ?_
    exact (declareToken_agrees htoken kind a.ty.strip).bind fun _ => .pure rfl

theorem Couples.endAccess {V : α → α → Prop} {opened : Option Binding} {check check' : Check α}
    (h : c.Couples n V check check') :
    c.Couples n V (Check.bracket id (fun _ left => Check.endAccess opened left) check)
      (Check.bracket id (fun _ left => Check.endAccess opened left) check') := by
  refine .bracket (fun _ => List.prefix_rfl) (fun _ t => ?_) (fun hst => hst) ?_ h
  · cases opened <;> exact List.prefix_rfl
  · intro s t u v _ huv
    cases opened with
    | none => exact huv
    | some key =>
        exact ⟨huv.table, by rw [Check.endAccess, Check.endAccess, huv.ledger], huv.modes, huv.loops,
          huv.result, huv.reports⟩

theorem Couples.withAccess {V : α → α → Prop} {span : Span} {kind : Access} {source token : Ident}
    {check check' : Check α} (hsource : c.Sees source.name) (htoken : c.Sees token.name)
    (h : c.Couples (n + 1) V check check') :
    c.Couples n V (Check.withAccess span kind source token check)
      (Check.withAccess span kind source token check') := by
  refine .language (.bind (.demand (·.supportsAccess kind) rfl (.access kind) span) fun _ => ?_)
  exact .withScope ((beginAccess_agrees kind hsource htoken).bind fun _ => h.endAccess)

/-! ### Expressions -/

theorem kind_cases {a b : Symbol} (hab : c.Same a b) :
    b.kind = a.kind ∨ ∃ mutable state state', a.kind = .var mutable state ∧
      b.kind = .var mutable state' := by
  obtain ⟨state, rfl⟩ := hab.similar
  rcases a with ⟨name, kind, ty, visibility, depth, span⟩
  cases kind with
  | var mutable old => exact .inr ⟨mutable, old, state, rfl, rfl⟩
  | _ => exact .inl rfl

theorem checkIdent_agrees {name : String} (h : c.Sees name) (use : Use) (span : Span) :
    c.Agrees n (checkIdent name use span) := by
  have hplace := c.reading.places_refl span
  refine (Couples.lookup h span).bindOn Pairing.Same.refl fun a b hab => ?_
  have hvar : c.Couples n Eq (do useSymbol a use span; return a.ty)
      (do useSymbol b use span; return b.ty) := by
    rw [hab.ty_eq]
    exact (useSymbol_couples hab use span).bind fun _ => .pure rfl
  rcases kind_cases hab with hkind | ⟨mutable, state, state', hleft, hright⟩
  · rw [hkind, hab.ty_eq]
    rw [hab.ty_eq] at hvar
    cases a.kind with
    | var mutable state => exact hvar
    | routine usurping => exact .pure rfl
    | basic => exact .fail rfl hplace
    | composite semantics fields params => exact .fail rfl hplace
    | module path => exact .fail rfl hplace
  · simp only [hleft, hright]
    exact hvar

theorem checkQualified_agrees {path : String} (hpath : c.Knows path) (qualifier : String)
    (property : Ident) : c.Agrees n (checkQualified qualifier path property) := by
  refine (moduleMember_agrees hpath property).bind fun symbol => ?_
  split
  · exact .pure rfl
  · exact .pure rfl
  · exact .fail rfl (c.reading.places_refl property.span)

theorem checkQualified_left (qualifier path : String) (property : Ident) (env : Env) (s : State) :
    (checkQualified qualifier path property env s).2 = s := by
  obtain ⟨result, hrun⟩ := moduleMember_apply path property env s
  rw [checkQualified, bind_apply, hrun]
  cases result with
  | error diagnostic => rfl
  | ok symbol =>
      simp only
      cases symbol.kind <;> rfl

/-- The name and the path of the module that an expression stands for. -/
def moduleOf (s : State) (object : Expr) : Option (String × String) :=
  object.asIdent.bind fun name =>
    ((s.table.find? name).bind (·.module?)).map fun path => (name, path)

theorem Alike.moduleOf_eq {s t : State} {object : Expr} (hst : c.Alike s t)
    (h : ∀ name ∈ object.names, c.Sees name) :
    moduleOf t (c.reading.expr object) = moduleOf s object := by
  unfold moduleOf
  rw [c.reading.asIdent_expr]
  cases hname : object.asIdent with
  | none => rfl
  | some name =>
      rcases rel_cases (hst.find?_similar (h name (Expr.mem_names_of_asIdent hname))) with
        ⟨hleft, hright⟩ | ⟨a, b, hleft, hright, state, rfl⟩
      · simp only [Option.bind_some, hleft, hright]
      · simp only [Option.bind_some, hleft, hright, Symbol.module?_setState]

/-- A name for a module is one in both runs, and they both know the module. -/
theorem member_couples {object : Expr} (h : ∀ name ∈ object.names, c.Sees name) (property : Ident)
    {inside inside' : Check Ty} (hinside : c.Couples n Eq inside inside') :
    c.Couples n Eq
      (do
        match ← namedModule object with
        | some (name, path) => checkQualified name path property
        | none => inside)
      (do
        match ← namedModule (c.reading.expr object) with
        | some (name, path) => checkQualified name path property
        | none => inside') := by
  have hnamed : ∀ object env s, namedModule object env s = (.ok (moduleOf s object), s) :=
    fun _ _ _ => rfl
  constructor
  · intro s
    rw [bind_apply, hnamed]
    cases moduleOf s object with
    | none => exact hinside.grows s
    | some named =>
        simp only [checkQualified_left]
        exact List.prefix_rfl
  · intro s t hst
    rw [bind_apply, bind_apply, hnamed, hnamed, hst.alike.moduleOf_eq h]
    cases hfound : moduleOf s object with
    | none => exact hinside.meets hst
    | some named =>
        obtain ⟨name, -, hnamed⟩ := Option.bind_eq_some_iff.1 hfound
        obtain ⟨path, hpath, rfl⟩ := Option.map_eq_some_iff.1 hnamed
        obtain ⟨symbol, hfind, hsymbol⟩ := Option.bind_eq_some_iff.1 hpath
        exact (checkQualified_agrees (c.knows hst.table hfind hsymbol) name property).meets hst

theorem rejectTypeCallee_couples {callee : Expr} (h : ∀ name ∈ callee.names, c.Sees name) :
    c.Couples n Eq (rejectTypeCallee callee) (rejectTypeCallee (c.reading.expr callee)) := by
  refine .state fun s t hst => ?_
  rw [c.reading.asIdent_expr, c.reading.spelled_expr]
  cases hname : callee.asIdent with
  | none => exact .pure rfl
  | some name =>
      rw [Option.bind_some, Option.bind_some]
      rcases rel_cases (hst.find?_similar (h name (Expr.mem_names_of_asIdent hname))) with
        ⟨hleft, hright⟩ | ⟨a, b, hleft, hright, state, rfl⟩
      · rw [hleft, hright]
        exact .pure rfl
      · rw [hleft, hright]
        simp only [Symbol.isType_setState]
        split
        · exact .fail rfl (c.reading.places_expr callee)
        · exact .pure rfl

theorem checkLend_couples (param : Ty) {arg : Expr} (h : ∀ name ∈ arg.names, c.Sees name) :
    c.Couples n Eq (checkLend param arg) (checkLend param (c.reading.expr arg)) := by
  refine .state fun s t hst => ?_
  rw [c.reading.asIdent_expr]
  cases hname : arg.asIdent with
  | none => exact .pure rfl
  | some name =>
      rcases rel_cases (hst.find?_similar (h name (Expr.mem_names_of_asIdent hname))) with
        ⟨hleft, hright⟩ | ⟨a, b, hleft, hright, state, rfl⟩
      · simp only [hleft, hright]
        exact .pure rfl
      · simp only [hleft, hright, Symbol.isVar_setState, Symbol.access?_setState,
          Symbol.isMutable_setState]
        exact .require rfl (c.reading.places_expr arg)

theorem passArgument_couples (param : Ty) {arg : Expr} (h : ∀ name ∈ arg.names, c.Sees name)
    (found : Option Ty) :
    c.Couples n Eq (passArgument param arg found)
      (passArgument param (c.reading.expr arg) found) := by
  unfold passArgument
  cases found with
  | none => exact .pure rfl
  | some ty =>
      simp only
      split
      · exact .report rfl (c.reading.places_expr arg)
      · split
        · exact checkLend_couples param h
        · exact takeOver_couples h

theorem initField_couples (owner : Ty) (fields : List (String × Ty)) (name : Ident) {value : Expr}
    (h : ∀ name ∈ value.names, c.Sees name) (found : Option Ty) :
    c.Couples n Eq (initField owner fields name value found)
      (initField owner fields name (c.reading.expr value) found) := by
  unfold initField
  split
  · exact .report rfl (c.reading.places_refl name.span)
  · cases found with
    | none => exact .pure rfl
    | some ty =>
        simp only
        split
        · exact .report rfl (c.reading.places_expr value)
        · exact takeOver_couples h

theorem reportMissing_agrees (type : String) (seen : List String) (span : Span)
    (fields : List (String × Ty)) : c.Agrees n (reportMissing type seen span fields) := by
  induction fields with
  | nil => exact .pure rfl
  | cons field fields ih =>
      exact (Couples.require rfl (c.reading.places_refl span)).bind fun _ => ih

theorem requireUnsafe_agrees (op : RawOp) (span : Span) : c.Agrees n (requireUnsafe op span) := by
  refine .state fun s t hst => ?_
  rw [hst.modes]
  exact .require rfl (c.reading.places_refl span)

theorem rawType_agrees (op : RawOp) {type : Option TypeExpr}
    (h : ∀ name ∈ (type.map TypeExpr.names).getD [], c.Sees name) (span : Span) :
    c.Agrees n (rawType op type span) := by
  cases type with
  | none => exact .fail rfl (c.reading.places_refl span)
  | some type => exact resolve_agrees h

theorem expectAddress_couples (ty : Ty) {span span' : Span} (h : c.reading.Places span span') :
    c.Couples n Eq (expectAddress ty span) (expectAddress ty span') := by
  unfold expectAddress
  split
  · exact .pure rfl
  · exact .fail rfl h

theorem expect_couples (target value : Ty) {span span' : Span} (h : c.reading.Places span span') :
    c.Couples n Eq (judge (target.expect value) span) (judge (target.expect value) span') :=
  .judge (fun _ h => (Ty.expect_ordinary h).supported) h

mutual
theorem checkExpr_couples : ∀ (expr : Expr) (use : Use) (n : Nat),
    (∀ name ∈ expr.names, c.Sees name) →
      c.Couples n Eq (checkExpr expr use) (checkExpr (c.reading.expr expr) use)
  | .literal span value, use, n, _ => by
      rw [c.reading.expr_literal, checkExpr]
      exact .pure rfl
  | .ident span name, use, n, h => by
      rw [c.reading.expr_ident, checkExpr]
      exact checkIdent_agrees (h name (List.mem_singleton_self name)) use span
  | .paren span inner, use, n, h => by
      have hright : checkExpr (c.reading.expr (.paren span inner)) use =
          checkExpr (c.reading.expr inner) use := by
        cases c.reading with
        | written => rw [Reading.expr, Reading.expr, checkExpr]
        | bare => rfl
      rw [hright, checkExpr]
      exact checkExpr_couples inner use n h
  | .binary span left op right, use, n, h => by
      rw [Expr.names, List.forall_mem_append] at h
      rw [c.reading.expr_binary, checkExpr, checkExpr]
      refine (checkExpr_couples left .read n h.1).bind fun _ =>
        (checkExpr_couples right .read n h.2).bind fun _ => ?_
      exact .judge (fun _ h => (Ty.binary_ordinary h).supported) (c.reading.places_refl span)
  | .unary span op operand, use, n, h => by
      rw [Expr.names] at h
      rw [c.reading.expr_unary, checkExpr, checkExpr]
      refine (checkExpr_couples operand .read n h).bind fun _ => ?_
      exact .judge (fun _ h => (Ty.unary_ordinary h).supported) (c.reading.places_refl span)
  | .call span callee args, use, n, h => by
      rw [Expr.names, List.forall_mem_append] at h
      rw [c.reading.expr_call, checkExpr, checkExpr, c.reading.spelled_expr, c.reading.length_args]
      refine (rejectTypeCallee_couples h.1).bind fun _ =>
        (checkExpr_couples callee .read n h.1).bind fun ty => ?_
      split
      · refine (Couples.require rfl (c.reading.places_refl span)).bind fun _ => ?_
        exact (checkArgs_couples args _ n h.2).bind fun _ => .pure rfl
      · exact (checkLooseArgs_couples args n h.2).bind fun _ => .pure rfl
      · exact .fail rfl (c.reading.places_expr callee)
  | .member span object property, use, n, h => by
      rw [Expr.names, List.forall_mem_cons] at h
      rw [c.reading.expr_member, checkExpr, checkExpr]
      exact member_couples h.2 property
        ((checkExpr_couples object .read n h.2).bind fun ty => memberType_agrees ty h.1)
  | .index span object position, use, n, h => by
      rw [Expr.names, List.forall_mem_append] at h
      rw [c.reading.expr_index, checkExpr, checkExpr]
      exact (checkExpr_couples object .read n h.1).bind fun ty =>
        (checkExpr_couples position .read n h.2).bind fun positionTy =>
          elementType_couples ty positionTy span (c.reading.places_expr position)
  | .construct span type inits, use, n, h => by
      rw [Expr.names, List.forall_mem_cons] at h
      rw [c.reading.expr_construct, checkExpr, checkExpr]
      refine (Couples.lookup h.1 type.span).bindOn Pairing.Same.refl fun a b hab => ?_
      obtain ⟨state, rfl⟩ := hab.similar
      simp only [Symbol.fields?_setState, Symbol.ty_setState]
      cases a.fields? with
      | none => exact .fail rfl (c.reading.places_refl type.span)
      | some fields =>
          exact (checkInits_couples a.ty fields inits [] n h.2).bind fun seen =>
            (reportMissing_agrees type.name seen span fields).bind fun _ => .pure rfl
  | .convert span operand target, use, n, h => by
      rw [Expr.names, List.forall_mem_append] at h
      rw [c.reading.expr_convert, checkExpr, checkExpr]
      refine (checkExpr_couples operand .read n h.1).bind fun _ => ?_
      refine (resolve_agrees h.2).bind fun _ => Couples.bind ?_ fun _ => .pure rfl
      exact .judge (fun _ h => (Ty.convert_ordinary h).supported) (c.reading.places_refl span)
  | .raw span .addressOf type [arg], use, n, h => by
      rw [Expr.names, List.forall_mem_append, Expr.namesAll, List.forall_mem_append] at h
      rw [c.reading.expr_raw, c.reading.args_cons, c.reading.args_nil, checkExpr, checkExpr,
        c.reading.asIdent_expr]
      refine (requireUnsafe_agrees _ span).bind fun _ => ?_
      split
      · exact .fail rfl (c.reading.places_expr arg)
      · exact (checkExpr_couples arg .read n h.2.1).bind fun _ => .pure rfl
  | .raw span .readAs type [address], use, n, h => by
      rw [Expr.names, List.forall_mem_append, Expr.namesAll, List.forall_mem_append] at h
      rw [c.reading.expr_raw, c.reading.args_cons, c.reading.args_nil, checkExpr, checkExpr]
      refine (requireUnsafe_agrees _ span).bind fun _ => ?_
      refine (rawType_agrees _ h.1 span).bind fun target => ?_
      refine (checkExpr_couples address .read n h.2.1).bind fun ty => ?_
      exact (expectAddress_couples ty (c.reading.places_expr address)).bind fun _ => .pure rfl
  | .raw span .writeAs type [address, value], use, n, h => by
      rw [Expr.names, List.forall_mem_append, Expr.namesAll, List.forall_mem_append, Expr.namesAll,
        List.forall_mem_append] at h
      rw [c.reading.expr_raw, c.reading.args_cons, c.reading.args_cons, c.reading.args_nil, checkExpr,
        checkExpr]
      refine (requireUnsafe_agrees _ span).bind fun _ => ?_
      refine (rawType_agrees _ h.1 span).bind fun target => ?_
      refine (checkExpr_couples address .read n h.2.1).bind fun ty => ?_
      refine (expectAddress_couples ty (c.reading.places_expr address)).bind fun _ => ?_
      refine (checkExpr_couples value (.argument false) n h.2.2.1).bind fun found => ?_
      exact (expect_couples target found (c.reading.places_expr value)).bind fun _ => .pure rfl
  -- the wrong number of operands
  | .raw span .addressOf _ [], _, n, _ | .raw span .addressOf _ (_ :: _ :: _), _, n, _
  | .raw span .readAs _ [], _, n, _ | .raw span .readAs _ (_ :: _ :: _), _, n, _
  | .raw span .writeAs _ [], _, n, _ | .raw span .writeAs _ [_], _, n, _
  | .raw span .writeAs _ (_ :: _ :: _ :: _), _, n, _ => by
      rw [c.reading.expr_raw]
      simp only [c.reading.args_cons, c.reading.args_nil]
      unfold checkExpr
      simp only [List.length_cons, List.length_nil, c.reading.length_args]
      exact (requireUnsafe_agrees _ span).bind fun _ => .fail rfl (c.reading.places_refl span)
  | .access span kind source token body, use, n, h => by
      rw [Expr.names, List.forall_mem_cons, List.forall_mem_cons] at h
      rw [c.reading.expr_access, checkExpr, checkExpr]
      exact .depth fun depth =>
        (checkExpr_couples body (.store depth) (n + 1) h.2.2).withAccess h.1 h.2.1

theorem checkArgs_couples : ∀ (args : List Expr) (params : List Ty) (n : Nat),
    (∀ name ∈ Expr.namesAll args, c.Sees name) →
      c.Couples n Eq (checkArgs args params) (checkArgs (c.reading.args args) params)
  | [], params, n, _ => by
      rw [c.reading.args_nil, checkArgs]
      exact .pure rfl
  | arg :: args, [], n, h => by
      rw [Expr.namesAll, List.forall_mem_append] at h
      rw [c.reading.args_cons, checkArgs, checkArgs]
      exact (checkExpr_couples arg .read n h.1).attempt.bind fun _ => checkArgs_couples args [] n h.2
  | arg :: args, param :: params, n, h => by
      rw [Expr.namesAll, List.forall_mem_append] at h
      rw [c.reading.args_cons, checkArgs, checkArgs]
      exact (checkExpr_couples arg (.argument param.isToken) n h.1).attempt.bind fun found =>
        (passArgument_couples param h.1 found).bind fun _ => checkArgs_couples args params n h.2

theorem checkLooseArgs_couples : ∀ (args : List Expr) (n : Nat),
    (∀ name ∈ Expr.namesAll args, c.Sees name) →
      c.Couples n Eq (checkLooseArgs args) (checkLooseArgs (c.reading.args args))
  | [], n, _ => by
      rw [c.reading.args_nil, checkLooseArgs]
      exact .pure rfl
  | arg :: args, n, h => by
      rw [Expr.namesAll, List.forall_mem_append] at h
      rw [c.reading.args_cons, checkLooseArgs, checkLooseArgs]
      exact (checkExpr_couples arg (.argument false) n h.1).attempt.bind fun _ =>
        checkLooseArgs_couples args n h.2

theorem checkInits_couples (owner : Ty) (fields : List (String × Ty)) :
    ∀ (inits : List (FieldInit Expr)) (seen : List String) (n : Nat),
      (∀ name ∈ Expr.namesInits inits, c.Sees name) →
        c.Couples n Eq (checkInits owner fields inits seen)
          (checkInits owner fields (c.reading.inits inits) seen)
  | [], seen, n, _ => by
      rw [c.reading.inits_nil, checkInits]
      exact .pure rfl
  | ⟨name, value⟩ :: inits, seen, n, h => by
      rw [Expr.namesInits, List.forall_mem_cons, List.forall_mem_append] at h
      rw [c.reading.inits_cons, checkInits, checkInits]
      refine (checkExpr_couples value (.argument false) n h.2.1).attempt.bind fun found => ?_
      split
      · exact (Couples.report rfl (c.reading.places_refl name.span)).bind fun _ =>
          checkInits_couples owner fields inits seen n h.2.2
      · exact (initField_couples owner fields name h.2.1 found).bind fun _ =>
          checkInits_couples owner fields inits (seen ++ [name.name]) n h.2.2
end

end Custody.Coupling
