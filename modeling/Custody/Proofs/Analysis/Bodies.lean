import Custody.Proofs.Check.ProperProgram
import Custody.Proofs.Check.Twins

/-! Where values do not move, the bodies of routines leave nothing behind. Whatever a body does, the
state after it is the one before it, but for what has been reported. And no check looks at what has
been reported before. So one body can be replaced by another, or by none, and all that is said about
the other items of the program stays the same. -/

namespace Custody

open Check

/-! ### What has been reported before -/

namespace Check

variable {env : Env} {s t : State}

theorem silent_reporting (check : Check Unit) (env : Env) (s : State) :
    (reporting check env s).2.silent = (check env s).2.silent := by
  rcases reporting_cases check env s with hrun | ⟨diagnostic, hrun⟩
  · rw [hrun]
  · rw [hrun]
    rfl

/-- An item adds the same reports, whatever has been reported before. -/
theorem checkItem_echo (h : s.silent = t.silent) (env : Env) (item : LinkedItem) :
    (reporting (checkItem item) env s).2.silent = (reporting (checkItem item) env t).2.silent ∧
      ∃ new, (reporting (checkItem item) env s).2.diagnostics = s.diagnostics ++ new ∧
        (reporting (checkItem item) env t).2.diagnostics = t.diagnostics ++ new := by
  let p := Pairing.within env.language env.modules env.modules s t
  have hadmits : p.twins.Admits item item := by
    rcases item with ⟨request, cause | loaded⟩ | decl
    · exact .load (.missing cause)
    · exact .load (.loaded rfl (fun _ => rfl) rfl)
    · exact Pairing.admits_decl decl
  have hagrees : p.twins.Agrees 0 (reporting (checkItem item)) :=
    (Coupling.checkItem_couples (Pairing.whole_twins rfl) hadmits).reporting
  obtain ⟨hsilent, -, hreports⟩ := Pairing.meets_within hagrees h fun _ _ _ _ _ _ _ => rfl
  exact ⟨hsilent, hreports⟩

/-! ### Items one by one -/

/-- What the check of each item reports, from the state `s` on. -/
def itemReports (env : Env) : List LinkedItem → State → List (List Diagnostic)
  | [], _ => []
  | item :: items, s =>
      let t := (reporting (checkItem item) env s).2
      t.diagnostics.drop s.diagnostics.length :: itemReports env items t

theorem itemReports_append (first rest : List LinkedItem) (env : Env) (s : State) :
    itemReports env (first ++ rest) s =
      itemReports env first s ++ itemReports env rest (checkItems first env s).2 := by
  induction first generalizing s with
  | nil => rfl
  | cons item first ih =>
      rw [List.cons_append, itemReports, itemReports, checkItems_cons, List.cons_append, ih]

theorem length_itemReports (items : List LinkedItem) (env : Env) (s : State) :
    (itemReports env items s).length = items.length := by
  induction items generalizing s with
  | nil => rfl
  | cons item items ih => rw [itemReports, List.length_cons, List.length_cons, ih]

/-- All that is reported has been reported for some item. -/
theorem diagnostics_checkItems (items : List LinkedItem) (env : Env) (s : State) :
    (checkItems items env s).2.diagnostics =
      s.diagnostics ++ (itemReports env items s).flatten := by
  induction items generalizing s with
  | nil => exact (List.append_nil _).symm
  | cons item items ih =>
      obtain ⟨-, new, hnew, -⟩ := checkItem_echo (s := s) (t := s) rfl env item
      rw [checkItems_cons, ih, itemReports, hnew, List.flatten_cons, List.drop_left,
        List.append_assoc]

/-- The items are checked alike, whatever has been reported before. -/
theorem itemReports_echo (items : List LinkedItem) (env : Env) (h : s.silent = t.silent) :
    (checkItems items env s).2.silent = (checkItems items env t).2.silent ∧
      itemReports env items s = itemReports env items t := by
  induction items generalizing s t with
  | nil => exact ⟨h, rfl⟩
  | cons item items ih =>
      obtain ⟨hafter, new, hleft, hright⟩ := checkItem_echo h env item
      obtain ⟨hfinal, hreports⟩ := ih hafter
      rw [checkItems_cons, checkItems_cons, itemReports, itemReports, hreports, hleft, hright,
        List.drop_left, List.drop_left]
      exact ⟨hfinal, rfl⟩

end Check

/-! ### What a body leaves -/

/-- The same symbol, and if it is a variable that has its value, it still has it. -/
structure Symbol.Steady (before after : Symbol) : Prop where
  similar : before.Similar after
  live : before.isMoved = false → after = before

theorem Symbol.isChange_steady : Symbol.IsChange Symbol.Steady where
  refl a := ⟨similar_refl a, fun _ => rfl⟩
  trans hab hbc := by
    refine ⟨hab.similar.trans hbc.similar, fun hlive => ?_⟩
    obtain rfl := hab.live hlive
    exact hbc.live hlive
  revised h := h.similar.revised

theorem eq_of_forall₂ {α : Type} {r : α → α → Prop} {xs ys : List α} (h : List.Forall₂ r xs ys)
    (hr : ∀ x ∈ xs, ∀ y, r x y → y = x) : ys = xs := by
  induction h with
  | nil => rfl
  | cons hhead _ ih =>
      obtain ⟨hfirst, hrest⟩ := List.forall_mem_cons.1 hr
      rw [hfirst _ hhead, ih hrest]

theorem Table.eq_of_steady {before after : Table} (h : Grown Symbol.Steady 0 before after)
    (hlive : before.All (·.isMoved = false)) : after = before := by
  have hscope : ∀ scope : Scope, (∀ symbol ∈ scope, symbol.isMoved = false) →
      ∀ scope', List.Forall₂ Symbol.Steady scope scope' → scope' = scope :=
    fun scope hall scope' hsteady =>
      eq_of_forall₂ hsteady fun symbol hsymbol _ hpair => hpair.live (hall symbol hsymbol)
  obtain ⟨hcurrent, hothers⟩ := all_iff.1 hlive
  have houter : after.outer = before.outer :=
    eq_of_forall₂ h.outer fun scope hmem => hscope scope (hothers scope hmem)
  have hscopes : after.scopes = before.scopes := by
    rw [scopes_eq, scopes_eq, hscope _ hcurrent _ h.forall₂_current, houter]
  rw [scopes, scopes, List.cons_eq_cons, List.reverse_inj] at hscopes
  rcases after with ⟨root, inner⟩
  rw [show root = before.root from hscopes.1, show inner = before.inner from hscopes.2]

namespace Check

variable {env : Env} {s : State}

/-- Where values do not move, the check of a body leaves nothing but reports. -/
theorem silent_body (hmoves : env.language.moves = false) (hs : s.Sound)
    (hlive : s.table.All (·.isMoved = false)) (result : Ty) (params : List (Param × Ty))
    (usurping : Bool) (body : List Stmt) :
    (inRoutine result (checkBody params usurping body) env s).2.silent = s.silent := by
  have hframe : StmtFrame env (Keeping Symbol.Steady) := by
    refine stmtFrame_keeping Symbol.isChange_steady (fun hmove => ?_) fun a => ?_
    · rw [hmoves] at hmove
      cases hmove
    · exact ⟨Symbol.similar_setState .live a, Symbol.setState_live⟩
  have hkeeps : Keeps env (Keeping Symbol.Steady 0) (checkBody params usurping body)
      { s with result := some result, loops := 0 } := checkBody_keeps hframe params usurping body
  obtain ⟨htable, hledger, hmodes, -⟩ := hkeeps.left hs
  have hsame := Table.eq_of_steady htable hlive
  unfold inRoutine bracket State.silent
  simp only [hsame, hledger, hmodes]

theorem sound_checkItems (items : List LinkedItem) (hs : s.Sound) :
    (checkItems items env s).2.Sound := by
  obtain ⟨added, hkept⟩ := (checkItems_keeps declFrame_keeping items s).left
  exact (hkept hs).sound hs

/-- With any body or without one, checking a routine leaves what declaring it leaves, but for
reports. -/
theorem silent_checkRoutine (hmoves : env.language.moves = false) (hs : s.Sound)
    (hproper : s.Proper env.language (Table.Proper env.language)) (routine : Routine)
    (body : Option (List Stmt)) :
    (checkRoutine { routine with body } env s).2.silent =
      (declareRoutine routine env s).2.silent := by
  have hdeclare : declareRoutine { routine with body } = declareRoutine routine := rfl
  rw [checkRoutine, hdeclare, bind_apply]
  rcases hrun : declareRoutine routine env s with ⟨diagnostic | ⟨params, result⟩, t⟩
  · rfl
  · cases body with
    | none => rfl
    | some body =>
        have hsound : t.Sound := by
          have hkept := (declareRoutine_keeps declFrame_keeping.toStmtFrame routine).related hrun
          exact (hkept hs).sound hs
        have hlive := ((declareRoutine_ensures routine).after hproper hrun).table.mono
          fun _ hsymbol => hsymbol.live hmoves
        exact silent_body hmoves hsound hlive result _ _ body

end Check

/-! ### Analyses -/

namespace Program

variable {σ : Type}

theorem length_mapM {α β : Type} (f : α → StateM σ β) (items : List α) (memory : σ) :
    (items.mapM f memory).1.length = items.length := by
  induction items generalizing memory with
  | nil => rfl
  | cons a items ih =>
      rw [List.mapM_cons]
      exact congrArg (· + 1) (ih _)

/-- What is loaded does not depend on the declarations of the program. -/
theorem link_decl (load : String → StateM σ (Except LoadError Module)) (language : Language)
    (memory : σ) (before after : Program) :
    ∃ prelude first rest, first.length = before.length ∧
      ∀ decl, (Program.link load language (before ++ .decl decl :: after) memory).1 =
        ⟨prelude, first ++ .decl decl :: rest⟩ := by
  let requests := language.prelude.mapM (m := StateM σ) (fun path => do
    let answer ← load path
    return (path, answer)) memory
  let first := before.mapM (linkItem load) requests.2
  let rest := after.mapM (linkItem load) first.2
  refine ⟨requests.1, first.1, rest.1, length_mapM _ _ _, fun decl => ?_⟩
  rw [link, List.mapM_append, List.mapM_cons]
  rfl

end Program

namespace Linked

variable {settings : Settings} {prelude : List (String × Except LoadError Module)}
  {first rest : List LinkedItem}

/-- What the analysis reports for each item of the program. -/
def reports (linked : Linked) (settings : Settings) : List (List Diagnostic) :=
  itemReports (linked.env settings) linked.items (linked.start settings)

theorem diagnostics_analyze (linked : Linked) (settings : Settings) :
    (linked.analyze settings).diagnostics =
      (linked.start settings).diagnostics ++ (linked.reports settings).flatten := by
  rw [analyze_eq]
  exact diagnostics_checkItems linked.items (linked.env settings) (linked.start settings)

/-- The analyses of the two programs differ in no more than what they report for one item. -/
structure SameBesides (settings : Settings) (index : Nat) (linked other : Linked) : Prop where
  table : (other.analyze settings).table = (linked.analyze settings).table
  modules : (other.analyze settings).modules = (linked.analyze settings).modules
  prelude : (other.start settings).diagnostics = (linked.start settings).diagnostics
  length : (other.reports settings).length = (linked.reports settings).length
  reports : ∀ n, n ≠ index → (other.reports settings)[n]? = (linked.reports settings)[n]?

theorem modules_decl (decl decl' : Decl) :
    (Linked.mk prelude (first ++ .decl decl' :: rest)).modules =
      (Linked.mk prelude (first ++ .decl decl :: rest)).modules := by
  simp [modules, answers]

/-- If a declaration is replaced by one that leaves the same state but for reports, nothing else
changes. -/
theorem sameBesides_decl {decl decl' : Decl}
    (h : ∀ {env s}, env = Linked.env ⟨prelude, first ++ .decl decl :: rest⟩ settings →
      s = (checkItems first env (start ⟨prelude, first ++ .decl decl :: rest⟩ settings)).2 →
      (checkDecl decl' env s).2.silent = (checkDecl decl env s).2.silent) :
    SameBesides settings first.length ⟨prelude, first ++ .decl decl :: rest⟩
      ⟨prelude, first ++ .decl decl' :: rest⟩ := by
  have henv : Linked.env ⟨prelude, first ++ .decl decl' :: rest⟩ settings =
      Linked.env ⟨prelude, first ++ .decl decl :: rest⟩ settings := by
    rw [Linked.env, Linked.env, modules_decl decl decl']
  have hstart : start ⟨prelude, first ++ .decl decl' :: rest⟩ settings =
      start ⟨prelude, first ++ .decl decl :: rest⟩ settings := by
    rw [start, start, henv]
  generalize hsurroundings : Linked.env ⟨prelude, first ++ .decl decl :: rest⟩ settings = env
    at henv h
  generalize hfrom : start ⟨prelude, first ++ .decl decl :: rest⟩ settings = begun at hstart h
  have hsilent : (reporting (checkItem (.decl decl')) env (checkItems first env begun).2).2.silent =
      (reporting (checkItem (.decl decl)) env (checkItems first env begun).2).2.silent := by
    rw [silent_reporting, silent_reporting]
    exact h rfl rfl
  obtain ⟨hfinal, hreports⟩ := itemReports_echo rest env hsilent
  constructor
  · rw [analyze_eq, analyze_eq]
    simp only [henv, hstart, hsurroundings, hfrom, checkItems_append, checkItems_cons]
    have htable := congrArg State.table hfinal
    exact htable
  · exact modules_decl decl decl'
  · rw [hstart, hfrom]
  · rw [reports, reports, length_itemReports, length_itemReports]
    simp
  · intro n hn
    have hlength := length_itemReports first env begun
    simp only [reports, henv, hstart, hsurroundings, hfrom, itemReports_append, itemReports,
      hreports, List.getElem?_append, List.getElem?_cons]
    split
    · rfl
    · rw [if_neg (by omega), if_neg (by omega)]

/-- Where values do not move, a body can be replaced. -/
theorem sameBesides_body {routine : Routine} (hmoves : settings.language.moves = false)
    (body : Option (List Stmt)) :
    SameBesides settings first.length ⟨prelude, first ++ .decl (.routine routine) :: rest⟩
      ⟨prelude, first ++ .decl (.routine { routine with body }) :: rest⟩ := by
  refine sameBesides_decl fun {env s} henv hs => ?_
  have hproper : s.Proper env.language (Table.Proper env.language) := by
    rw [hs, henv]
    exact (checkItems_ensures first).left (proper_start settings _)
  subst henv hs
  have hleft := silent_checkRoutine hmoves (sound_checkItems first (sound_start settings _)) hproper
    routine
  exact (hleft body).trans (hleft routine.body).symm

end Linked

/-- No variable is without its value, and no use of a moved value has been reported. -/
structure State.Unmoved (s : State) : Prop where
  table : s.table.All (·.isMoved = false)
  reports : ∀ diagnostic ∈ s.diagnostics, diagnostic.fault.isUseAfterMove = false

theorem State.Proper.unmoved {language : Language} {s : State} (hmoves : language.moves = false)
    (h : s.Proper language (Table.Proper language)) : s.Unmoved where
  table := h.table.mono fun _ hsymbol => hsymbol.live hmoves
  reports diagnostic hdiagnostic := h.reports diagnostic hdiagnostic hmoves

namespace Linked

variable {σ : Type}

/-- In Suflae no value ever moves, before, during or after a check. And the body of a routine can be
replaced by any other or left out: the symbols, the modules and what is reported for all other items
stay the same, whatever the program is and whatever its loader gives. -/
theorem suflae_bodies_do_not_interfere (tolerant : Bool)
    (load : String → StateM σ (Except LoadError Module)) (memory : σ) (program : Program) :
    let settings : Settings := ⟨.suflae, tolerant⟩
    let linked := (program.link load .suflae memory).1
    let env := linked.env settings
    (∀ s, Reachable settings linked s →
      s.Unmoved ∧
      (∀ expr use, (checkExpr expr use env s).2.Unmoved) ∧
      (∀ stmt, (checkStmt stmt env s).2.Unmoved) ∧
      ∀ decl, (checkDecl decl env s).2.Unmoved) ∧
    (linked.analyze settings).table.All (·.isMoved = false) ∧
    (∀ diagnostic ∈ (linked.analyze settings).diagnostics,
      diagnostic.fault.isUseAfterMove = false) ∧
    (linked.analyze settings).diagnostics =
      (linked.start settings).diagnostics ++ (linked.reports settings).flatten ∧
    ∀ before routine after body, program = before ++ .decl (.routine routine) :: after →
      let other := before ++ .decl (.routine { routine with body }) :: after
      SameBesides settings before.length linked (Program.link load .suflae other memory).1 := by
  intro settings linked env
  have hanalyzed : (checkItems linked.items env (linked.start settings)).2.Unmoved :=
    (proper_analyzed settings linked).unmoved rfl
  refine ⟨fun s hs => ?_, ?_, ?_, diagnostics_analyze linked settings, ?_⟩
  · have hproper := hs.proper
    refine ⟨hproper.unmoved rfl, fun expr use => ?_, fun stmt => ?_, fun decl => ?_⟩
    · exact ((checkExpr_ensures expr use).left hproper).unmoved rfl
    · exact ((checkStmt_ensures stmt).left hproper).unmoved rfl
    · exact ((checkDecl_ensures decl).left hproper).unmoved rfl
  · rw [analyze_eq]
    exact hanalyzed.table
  · rw [analyze_eq]
    exact hanalyzed.reports
  · rintro before routine after body rfl
    obtain ⟨prelude, first, rest, hlength, hlink⟩ :=
      Program.link_decl load .suflae memory before after
    simp only [linked, hlink, ← hlength]
    exact sameBesides_body rfl body

/-- An entity `Box`, a routine `share` with this body, and a routine that uses a name that is not
declared. -/
def sharing (body : Option (List Stmt)) : Program :=
  [.decl (.type { semantics := .reference, name := ⟨"Box", {}⟩, params := [], fields := [] }),
    .decl (.routine {
      span := {}
      name := ⟨"share", {}⟩
      params := [⟨⟨"b", {}⟩, .named {} ⟨"Box", {}⟩ []⟩]
      result := none
      body }),
    .decl (.routine {
      span := {}
      name := ⟨"fail", {}⟩
      params := []
      result := none
      body := some [.expr {} (.ident {} "c")] })]

/-- A body that takes over the value of its parameter twice. -/
def takingTwice : List Stmt :=
  [.var {} { name := ⟨"c", {}⟩, mutable := false, init := some (.ident {} "b") },
    .var {} { name := ⟨"d", {}⟩, mutable := false, init := some (.ident {} "b") }]

/-- In particular where a value is taken over twice, which would have moved in RazorForge, and the
routine that does so loses its body. -/
theorem suflae_bodies_do_not_interfere_sharing :
    let load : String → StateM Unit (Except LoadError Module) :=
      fun path => pure (.error (.notFound path))
    let settings : Settings := ⟨.suflae, true⟩
    let linked := ((sharing (some takingTwice)).link load .suflae ()).1
    (((sharing (some takingTwice)).link load .razorForge ()).1.analyze {}).diagnostics.any
        (·.fault.isUseAfterMove) = true ∧
      (linked.reports settings).map (·.length) = [0, 0, 1] ∧
      (∃ s, Reachable settings linked s ∧ (s.table.find? "c").isSome = true ∧ s.Unmoved) ∧
      SameBesides settings 1 linked ((sharing none).link load .suflae ()).1 := by
  intro load settings linked
  obtain ⟨hreachable, -, -, -, hbodies⟩ :=
    suflae_bodies_do_not_interfere true load () (sharing (some takingTwice))
  refine ⟨by decide +kernel, by decide +kernel, ?_, ?_⟩
  · have hstart : linked.start settings = initial.openScope := start_of_missing rfl
    have hitems : Visited settings linked (.items linked.items) initial.openScope :=
      hstart ▸ .start
    have hvisited : ∃ s, Reachable settings linked s ∧ (s.table.find? "c").isSome = true :=
      ⟨_, ⟨_, .visit (.visit (.visit hitems (.otherItems rfl)) (.routineBody rfl rfl rfl))
        (.otherStmts rfl)⟩, rfl⟩
    obtain ⟨s, hs, hfind⟩ := hvisited
    exact ⟨s, hs, hfind, (hreachable s hs).1⟩
  · exact hbodies ((sharing none).take 1) _ ((sharing none).drop 2) none rfl

end Linked

end Custody
