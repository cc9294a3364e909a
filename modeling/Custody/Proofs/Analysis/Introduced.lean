import Custody.Proofs.Analysis.Restored
import Custody.Proofs.Check.Complete
import Custody.Proofs.Check.ProperProgram
import Custody.Proofs.Scope.Calls

/-! The scopes that an analysis leaves. Each item of a program introduces the symbols of a plain
import, the name of a named one or the name that it declares, and it does so whatever else is wrong
with it. The scope of the program has the first symbol of each name that is introduced, in order;
the root scope has the built-in types and what the prelude adds to them, and the items of the program
leave it alone. -/

namespace Custody

open Scope

/-! ### Headings -/

def SymbolKind.heading : SymbolKind → SymbolKind
  | .var mutable _ => .var mutable .live
  | .composite semantics _ params => .composite semantics [] params
  | kind => kind

namespace Symbol

variable {a b : Symbol}

/-- What is known of a symbol when it is introduced: neither its type nor its fields, which are
resolved where it is declared, nor whether it will be moved. -/
def heading (symbol : Symbol) : Symbol :=
  { symbol with kind := symbol.kind.heading, ty := .unknown, depth := 0 }

@[simp] theorem name_heading (symbol : Symbol) : symbol.heading.name = symbol.name := rfl

@[simp] theorem isVar_heading (symbol : Symbol) : symbol.heading.isVar = symbol.isVar := by
  rcases symbol with ⟨name, kind, ty, visibility, depth, span⟩
  cases kind <;> rfl

theorem heading_setFields (fields : List (String × Ty)) (symbol : Symbol) :
    (symbol.setFields fields).heading = symbol.heading := by
  rcases symbol with ⟨name, kind, ty, visibility, depth, span⟩
  cases kind <;> rfl

theorem Similar.heading_eq (h : Similar a b) : b.heading = a.heading := by
  obtain ⟨state, rfl⟩ := h
  rcases a with ⟨name, kind, ty, visibility, depth, span⟩
  cases kind <;> rfl

theorem name_eq_of_heading (h : a.heading = b.heading) : a.name = b.name := by
  rw [← name_heading a, h, name_heading]

end Symbol

namespace Scope

variable {before after : Scope}

theorem map_heading_of_similar (h : List.Forall₂ Symbol.Similar before after) :
    after.map Symbol.heading = before.map Symbol.heading := by
  induction h with
  | nil => rfl
  | cons hhead _ ih => rw [List.map_cons, List.map_cons, hhead.heading_eq, ih]

theorem names_eq_of_heading (h : before.map Symbol.heading = after.map Symbol.heading) :
    before.names = after.names := by
  have hnames : ∀ scope : Scope, names (scope.map Symbol.heading) = scope.names := by
    intro scope
    rw [names, List.map_map]
    rfl
  rw [← hnames, h, hnames]

/-- What is fresh depends on the names in the scope alone. -/
theorem fresh_of_names (h : before.names = after.names) (symbols : List Symbol) :
    before.fresh symbols = after.fresh symbols := by
  rw [fresh, fresh, h]

theorem fresh_map {f : Symbol → Symbol} (hname : ∀ symbol, (f symbol).name = symbol.name)
    (scope : Scope) (symbols : List Symbol) :
    scope.fresh (symbols.map f) = (scope.fresh symbols).map f := by
  rw [fresh, firsts_map hname, List.filter_map, fresh]
  congr 1
  apply List.filter_congr
  intro symbol _
  simp [hname]

/-- Symbols that come later are fresh if they are so after the earlier ones. -/
theorem fresh_append (scope : Scope) (first second : List Symbol) :
    scope.fresh (first ++ second) =
      scope.fresh first ++ Scope.fresh (scope ++ scope.fresh first) second := by
  have hboth := foldl_enter scope (first ++ second)
  rw [List.foldl_append, foldl_enter, foldl_enter, List.append_assoc] at hboth
  exact (List.append_cancel_left hboth).symm

theorem fresh_of_taken {symbol : Symbol} (h : symbol.name ∈ before.names) :
    before.fresh [symbol] = [] := by
  simp [fresh, firsts, h]

theorem fresh_of_new {symbol : Symbol} (h : symbol.name ∉ before.names) :
    before.fresh [symbol] = [symbol] := by
  simp [fresh, firsts, h]

end Scope

namespace Table

variable {table before middle after : Table} {symbol stub : Symbol} {name : String}

/-! ### Declaring in the innermost scope -/

theorem current_perform_declare (table : Table) (symbol : Symbol) :
    (table.perform (.declare symbol)).current =
      table.current.enter (symbol.declaredAt table.depth) := by
  by_cases htaken : symbol.name ∈ table.current.names
  · rw [perform_declare_of_taken htaken, enter, Symbol.name_declaredAt,
      if_pos (contains_iff.2 htaken)]
  · rw [perform_declare_of_new htaken, current_append, enter, Symbol.name_declaredAt,
      if_neg (by rwa [contains_iff])]

theorem outer_perform_declare (table : Table) (symbol : Symbol) :
    (table.perform (.declare symbol)).outer = table.outer := by
  by_cases htaken : symbol.name ∈ table.current.names
  · rw [perform_declare_of_taken htaken]
  · rw [perform_declare_of_new htaken, outer_append]

/-- Declaring symbols one after the other adds those that are fresh. -/
theorem performAll_declare (table : Table) (symbols : List Symbol) :
    (table.performAll (symbols.map .declare)).current =
        table.current ++ table.current.fresh (symbols.map (·.declaredAt table.depth)) ∧
      (table.performAll (symbols.map .declare)).outer = table.outer := by
  rw [← foldl_enter]
  induction symbols generalizing table with
  | nil => exact ⟨rfl, rfl⟩
  | cons symbol symbols ih =>
      have hdepth : (table.perform (.declare symbol)).depth = table.depth := by
        rw [depth_eq_length_outer, outer_perform_declare, depth_eq_length_outer]
      obtain ⟨hcurrent, houter⟩ := ih (table.perform (.declare symbol))
      rw [hdepth, current_perform_declare] at hcurrent
      rw [outer_perform_declare] at houter
      exact ⟨hcurrent, houter⟩

/-- A name that the innermost scope has is updated there. -/
theorem update_of_mem_current (f : Symbol → Symbol) (h : name ∈ table.current.names) :
    (table.update name f).current = table.current.update name f ∧
      (table.update name f).outer = table.outer := by
  rcases table with ⟨root, _ | ⟨scope, rest⟩⟩
  · exact ⟨rfl, rfl⟩
  · have hcontains : scope.contains name = true := contains_iff.2 h
    have hupdate : update ⟨root, scope :: rest⟩ name f = ⟨root, scope.update name f :: rest⟩ := by
      simp [update, updateFirst, hcontains]
    rw [hupdate]
    exact ⟨rfl, rfl⟩

/-! ### Gains -/

/-- `after` has the scopes of `before`, with variables moved or set again, and the innermost one has
symbols more that look like `gained`. -/
structure Gains (gained : List Symbol) (before after : Table) : Prop where
  current : ∃ kept new, after.current = kept ++ new ∧
    List.Forall₂ Symbol.Similar before.current kept ∧
    new.map Symbol.heading = gained.map Symbol.heading
  outer : List.Forall₂ (List.Forall₂ Symbol.Similar) before.outer after.outer

namespace Gains

variable {gained more : List Symbol}

theorem of_grown (h : Grown Symbol.Similar 0 before after) : Gains [] before after :=
  ⟨⟨after.current, [], by simp, h.forall₂_current, rfl⟩, h.outer⟩

theorem headings (h : Gains gained before after) :
    after.current.map Symbol.heading = (before.current ++ gained).map Symbol.heading := by
  obtain ⟨kept, new, hafter, hkept, hnew⟩ := h.current
  rw [hafter, List.map_append, map_heading_of_similar hkept, hnew, List.map_append]

theorem names (h : Gains gained before after) :
    after.current.names = Scope.names (before.current ++ gained) :=
  names_eq_of_heading h.headings

theorem congr (h : Gains gained before after)
    (hmore : gained.map Symbol.heading = more.map Symbol.heading) : Gains more before after := by
  obtain ⟨⟨kept, new, hafter, hkept, hnew⟩, houter⟩ := h
  exact ⟨⟨kept, new, hafter, hkept, hnew.trans hmore⟩, houter⟩

theorem trans (h : Gains gained before middle) (h' : Gains more middle after) :
    Gains (gained ++ more) before after := by
  obtain ⟨⟨kept, new, hmiddle, hkept, hnew⟩, houter⟩ := h
  obtain ⟨⟨kept', new', hafter, hkept', hnew'⟩, houter'⟩ := h'
  rw [hmiddle] at hkept'
  -- what the table had gained first may have been moved since
  have hfront := List.forall₂_take kept.length hkept'
  have hback := List.forall₂_drop kept.length hkept'
  rw [List.take_left] at hfront
  rw [List.drop_left] at hback
  refine ⟨⟨kept'.take kept.length, kept'.drop kept.length ++ new', ?_, ?_, ?_⟩, ?_⟩
  · rw [hafter, ← List.append_assoc, List.take_append_drop]
  · exact forall₂_trans Symbol.isChange_similar hkept hfront
  · rw [List.map_append, map_heading_of_similar hback, hnew, hnew', List.map_append]
  · exact forall₂_outer_trans Symbol.isChange_similar houter houter'

theorem declareAll (table : Table) (symbols : List Symbol) :
    Gains (table.current.fresh symbols) table (table.performAll (symbols.map .declare)) := by
  obtain ⟨hcurrent, houter⟩ := performAll_declare table symbols
  refine ⟨⟨table.current, _, hcurrent, forall₂_refl Symbol.isChange_similar _, ?_⟩, ?_⟩
  · rw [fresh_map (Symbol.name_declaredAt · _), List.map_map]
    rfl
  · rw [houter]
    exact (Grown.refl Symbol.isChange_similar table).outer

/-- Setting the fields of what has just been declared changes nothing else. -/
theorem setFields (h : Gains [stub] before after) (hnew : stub.name ∉ before.current.names)
    (fields : List (String × Ty)) :
    Gains [stub] before (after.update stub.name (Symbol.setFields fields)) := by
  obtain ⟨⟨kept, new, hafter, hkept, hheading⟩, houter⟩ := h
  obtain ⟨symbol, rfl⟩ : ∃ symbol, new = [symbol] := by
    rw [← List.length_eq_one_iff, ← List.length_map Symbol.heading, hheading]
    rfl
  have hsame : symbol.heading = stub.heading := List.singleton_inj.1 hheading
  have hname : symbol.name = stub.name := Symbol.name_eq_of_heading hsame
  have hmem : stub.name ∈ after.current.names := by simp [hafter, Scope.names, hname]
  have hkeptname : ∀ other ∈ kept, other.name ≠ stub.name := by
    intro other hother heq
    apply hnew
    rw [← names_eq_of_heading (map_heading_of_similar hkept)]
    exact List.mem_map.2 ⟨other, hother, heq⟩
  obtain ⟨hcurrent, hrest⟩ := update_of_mem_current (Symbol.setFields fields) hmem
  have hunchanged : Scope.update kept stub.name (Symbol.setFields fields) = kept := by
    rw [Scope.update, List.map_congr_left fun other hother => if_neg (hkeptname other hother)]
    exact List.map_id' kept
  refine ⟨⟨kept, [symbol.setFields fields], ?_, hkept, ?_⟩, ?_⟩
  · rw [hcurrent, hafter]
    have hlast : Scope.update [symbol] stub.name (Symbol.setFields fields) =
        [symbol.setFields fields] := by simp [Scope.update, hname]
    rw [← hlast]
    nth_rewrite 2 [← hunchanged]
    exact List.map_append
  · rw [List.map_singleton, List.map_singleton, Symbol.heading_setFields, hsame]
  · rw [hrest]
    exact houter

end Gains

end Table

namespace Check

variable {α β : Type} {env : Env} {s : State} {symbols : List Symbol}

/-! ### What a check introduces -/

/-- Whichever way `check` ends, the innermost scope has gained those of the symbols that are fresh. -/
def Introduces (env : Env) (symbols : List Symbol) (check : Check α) (s : State) : Prop :=
  s.Sound → (check env s).2.Sound ∧
    Table.Gains (s.table.current.fresh symbols) s.table (check env s).2.table

theorem table_reporting (check : Check Unit) (env : Env) (s : State) :
    (reporting check env s).2.table = (check env s).2.table := by
  rcases reporting_cases check env s with hrun | ⟨diagnostic, hrun⟩
  · rw [hrun]
  · rw [hrun]
    rfl

theorem ledger_reporting (check : Check Unit) (env : Env) (s : State) :
    (reporting check env s).2.ledger = (check env s).2.ledger := by
  rcases reporting_cases check env s with hrun | ⟨diagnostic, hrun⟩
  · rw [hrun]
  · rw [hrun]
    rfl

namespace Introduces

theorem congr {declared stub : Symbol} {check : Check α} (h : Introduces env [declared] check s)
    (hstub : declared.heading = stub.heading) : Introduces env [stub] check s := by
  intro hs
  obtain ⟨hsound, hgains⟩ := h hs
  refine ⟨hsound, hgains.congr ?_⟩
  have hname := Symbol.name_eq_of_heading hstub
  by_cases htaken : stub.name ∈ s.table.current.names
  · rw [fresh_of_taken htaken, fresh_of_taken (hname ▸ htaken)]
  · rw [fresh_of_new htaken, fresh_of_new (hname ▸ htaken), List.map_singleton, List.map_singleton,
      hstub]

/-- A first part may resolve types and move variables, as long as it has a value. -/
theorem after {first : Check α} {next : α → Check β} (hcompletes : Completes first)
    (hkeeps : Keeps env (Keeping Symbol.Similar 0) first s)
    (hnext : ∀ a t, Introduces env symbols (next a) t) :
    Introduces env symbols (first >>= next) s := by
  intro hs
  obtain ⟨a, ha⟩ := hcompletes env s
  have hkept := hkeeps.left hs
  have hgains := Table.Gains.of_grown hkept.table
  obtain ⟨hsound, hmore⟩ := hnext a (first env s).2 (hkept.sound hs)
  have hnames : (first env s).2.table.current.names = s.table.current.names := by
    rw [hgains.names, List.append_nil]
  rw [bind_of_ok ha]
  rw [fresh_of_names hnames] at hmore
  exact ⟨hsound, hgains.trans hmore⟩

/-- What follows may do anything in scopes of its own. -/
theorem followedBy {first : Check α} {next : α → Check β} (h : Introduces env symbols first s)
    (hnext : ∀ a t, Keeping Symbol.Similar 0 t (next a env t).2) :
    Introduces env symbols (first >>= next) s := by
  intro hs
  obtain ⟨hsound, hgains⟩ := h hs
  rcases bind_cases first next env s with ⟨a, -, hrun⟩ | ⟨cause, -, hrun⟩
  · have hkept := hnext a _ hsound
    have hmore := hgains.trans (.of_grown hkept.table)
    rw [List.append_nil] at hmore
    rw [hrun]
    exact ⟨hkept.sound hsound, hmore⟩
  · rw [hrun]
    exact ⟨hsound, hgains⟩

theorem reporting {check : Check Unit} (h : Introduces env symbols check s) :
    Introduces env symbols (Check.reporting check) s := by
  intro hs
  obtain ⟨hsound, hgains⟩ := h hs
  unfold State.Sound State.depth at hsound ⊢
  rw [table_reporting, ledger_reporting]
  exact ⟨hsound, hgains⟩

end Introduces

/-- A state that has what is declared, and the old table where that is refused. -/
theorem table_eq_perform {symbol : Symbol} {t : State}
    (hok : ∀ {key table}, s.table.declare symbol = .ok (key, table) → t.table = table)
    (herror : ∀ {cause}, s.table.declare symbol = .error cause → t.table = s.table) :
    t.table = s.table.perform (.declare symbol) := by
  rcases hdeclare : s.table.declare symbol with cause | ⟨key, table⟩
  · rw [herror hdeclare, Table.perform, hdeclare]
    rfl
  · rw [hok hdeclare, Table.perform, hdeclare]
    rfl

theorem declare_table (symbol : Symbol) (env : Env) (s : State) :
    (declare symbol env s).2.table = s.table.perform (.declare symbol) := by
  apply table_eq_perform <;> intros <;> simp_all [declare]

theorem declare_introduces (symbol : Symbol) : Introduces env [symbol] (declare symbol) s := by
  intro hs
  have hkeeps : Keeps env (Keeping Symbol.Similar 1) (declare symbol) s :=
    .declare blockFrame_similar symbol
  refine ⟨(hkeeps.left hs).sound hs, ?_⟩
  rw [declare_table]
  exact .declareAll s.table [symbol]

/-! ### Declarations -/

/-- Nothing but the name keeps a variable from being declared. -/
theorem checkVar_introduces (language : Language) (decl : VarDecl) :
    Introduces env [(Decl.var decl).symbol language] (checkVar decl) s := by
  refine .after (.varType decl) (varType_keeps stmtFrame_similar.toExprFrame decl) fun ty t => ?_
  exact (declare_introduces _).congr rfl

theorem checkRoutine_introduces (language : Language) (routine : Routine) :
    Introduces env [(Decl.routine routine).symbol language] (checkRoutine routine) s := by
  have hdeclare : Introduces env [(Decl.routine routine).symbol language]
      (declareRoutine routine) s := by
    refine .after (fun env _ => ⟨env.language, rfl⟩) ⟨frame_similar.refl s, nofun⟩ fun found t => ?_
    refine .after (.require _ _ _) (.require frame_similar rfl) fun _ t => ?_
    refine .after (.paramTypes _) (paramTypes_keeps frame_similar _ t) fun params t => ?_
    refine .after (.resultType _) (resultType_keeps frame_similar _) fun result t => ?_
    refine .followedBy ((declare_introduces _).congr rfl) fun _ t => ?_
    exact frame_similar.refl t
  refine hdeclare.followedBy fun (params, result) t ht => ?_
  cases hbody : routine.body with
  | none => exact .refl Symbol.isChange_similar t
  | some body =>
      have hkeeps : Keeps env (Keeping Symbol.Similar 0)
          (checkBody (routine.params.zip params) routine.usurping body)
          { t with result := some result, loops := 0 } := checkBody_keeps stmtFrame_similar _ _ body
      have hkept := hkeeps.left ht
      exact ⟨hkept.table, hkept.ledger, hkept.modes, rfl, rfl, hkept.diagnostics⟩

theorem declare_of_taken {symbol : Symbol} (h : symbol.name ∈ s.table.current.names) :
    declare symbol env s = (.error ⟨.ofScope (.duplicate symbol.name), symbol.span⟩, s) := by
  rw [declare, Table.declare_eq_error_iff.2 ⟨h, rfl⟩]

/-- The fields of a type are set after its declaration, and under its name nothing else is found
then. -/
theorem checkTypeDecl_introduces (language : Language) (decl : TypeDecl) :
    Introduces env [(Decl.type decl).symbol language] (checkTypeDecl decl) s := by
  intro hs
  by_cases htaken : decl.name.name ∈ s.table.current.names
  · rw [fresh_of_taken htaken, checkTypeDecl, bind_apply, declare_of_taken htaken]
    exact ⟨hs, .of_grown (.refl Symbol.isChange_similar _)⟩
  · have hdeclare : Introduces env [(Decl.type decl).symbol language] (declare
        { Symbol.composite decl.semantics decl.name.name [] decl.paramNames decl.name.span with
          visibility := decl.visibility }) s := (declare_introduces _).congr rfl
    obtain ⟨hsound, hgains⟩ := hdeclare hs
    have hok : (declare
        { Symbol.composite decl.semantics decl.name.name [] decl.paramNames decl.name.span with
          visibility := decl.visibility } env s).1 = .ok () := by
      rw [declare_of_free (contains_eq_false_iff.2 htaken)]
    rw [checkTypeDecl, bind_of_ok hok]
    generalize (declare _ env s).2 = t at hsound hgains ⊢
    have hfields : Completes (withScope do
        declareTypeParams decl.params
        checkFields decl.fields []) :=
      .withScope (.bind (.declareTypeParams _) fun _ => .checkFields _ _)
    have hkept : Keeps env (Keeping Symbol.Similar 0) (withScope do
        declareTypeParams decl.params
        checkFields decl.fields []) t := withFields_keeps stmtFrame_similar decl
    obtain ⟨fields, hrun⟩ := hfields env t
    rw [bind_of_ok hrun]
    have hrestored := hkept.left hsound
    generalize (withScope _ env t).2 = u at hrestored ⊢
    have hdeclared := hgains.trans (.of_grown hrestored.table)
    rw [List.append_nil, fresh_of_new htaken] at hdeclared
    constructor
    · have hu := hrestored.sound hsound
      unfold State.Sound State.depth at hu ⊢
      simpa [modify] using hu
    · rw [fresh_of_new htaken]
      exact hdeclared.setFields htaken fields

theorem checkDecl_introduces (language : Language) (decl : Decl) :
    Introduces env [decl.symbol language] (checkDecl decl) s := by
  cases decl with
  | routine routine => exact checkRoutine_introduces language routine
  | type decl => exact checkTypeDecl_introduces language decl
  | var decl => exact checkVar_introduces language decl

end Check

/-! ### Items -/

/-- The symbols that an item of a program introduces, in order. What a declaration introduces is the
symbol that others would see of it, whose type and fields need not be what they are resolved to
here. -/
def LinkedItem.introduced (language : Language) : LinkedItem → List Symbol
  | .load _ (.error _) => []
  | .load request (.ok loaded) =>
      match request.name with
      | some name => [Symbol.module name.name loaded.path name.span]
      | none => loaded.exports language
  | .decl declared => [declared.symbol language]

namespace Check

variable {env : Env} {s : State}

theorem declareImports_table (span : Span) (symbols : List Symbol) (env : Env) (s : State) :
    (declareImports span symbols env s).2.table =
      s.table.performAll (symbols.map .declare) := by
  induction symbols generalizing s with
  | nil => rfl
  | cons symbol symbols ih =>
      rw [declareImports, bind_of_ok (a := ()) rfl, ih]
      refine congrArg (Table.performAll · (symbols.map .declare)) ?_
      apply table_eq_perform <;> intros <;> simp_all [modify, State.report]

theorem declarePrelude_table (symbols : List Symbol) (env : Env) (s : State) :
    (declarePrelude symbols env s).2.table = s.table.performAll (symbols.map .declare) := by
  induction symbols generalizing s with
  | nil => rfl
  | cons symbol symbols ih =>
      rw [declarePrelude, bind_of_ok (a := ()) rfl, ih]
      refine congrArg (Table.performAll · (symbols.map .declare)) ?_
      apply table_eq_perform <;> intros <;> simp_all [modify]

/-- An import does nothing to the table but declare what it introduces. -/
theorem checkImport_table (request : Import) (answer : Except LoadError Module) (env : Env)
    (s : State) :
    (checkImport request answer env s).2.table = s.table.performAll
      (((LinkedItem.load request answer).introduced env.language).map .declare) := by
  cases answer with
  | error cause => rfl
  | ok loaded =>
      cases hname : request.name with
      | none =>
          simp only [checkImport, LinkedItem.introduced, hname]
          exact declareImports_table request.span (loaded.exports env.language) env s
      | some name =>
          simp only [checkImport, LinkedItem.introduced, hname]
          exact declare_table _ env s

/-- An item introduces its symbols, whatever is wrong with it. -/
theorem checkItem_introduces (item : LinkedItem) (s : State) :
    Introduces env (item.introduced env.language) (checkItem item) s := by
  cases item with
  | load request answer =>
      intro hs
      have hkeeps : Keeps env (AtSome (Keeping Symbol.Similar)) (checkImport request answer) s :=
        checkImport_keeps stmtFrame_similar request answer
      obtain ⟨n, hkeeping⟩ := hkeeps.left
      refine ⟨(hkeeping hs).sound hs, ?_⟩
      rw [checkItem, checkImport_table]
      exact .declareAll s.table _
  | decl decl => exact checkDecl_introduces env.language decl

theorem checkItems_introduces (env : Env) (items : List LinkedItem) (s : State) :
    Introduces env (items.flatMap (·.introduced env.language)) (checkItems items) s := by
  induction items generalizing s with
  | nil => exact fun hs => ⟨hs, .of_grown (.refl Symbol.isChange_similar _)⟩
  | cons item items ih =>
      intro hs
      obtain ⟨hmiddle, hfirst⟩ := (checkItem_introduces item s).reporting hs
      obtain ⟨hsound, hrest⟩ := ih (reporting (checkItem item) env s).2 hmiddle
      rw [fresh_of_names hfirst.names] at hrest
      rw [checkItems_cons, List.flatMap_cons, fresh_append]
      exact ⟨hsound, hfirst.trans hrest⟩

end Check

/-! ### Programs -/

/-- The item without what the loader answered. -/
def LinkedItem.item : LinkedItem → Item
  | .load request _ => .load request
  | .decl declared => .decl declared

namespace Program

variable {σ : Type}

theorem map_mapM {α β γ : Type} {f : α → StateM σ β} {g : β → γ} {h : α → γ}
    (hf : ∀ a memory, g (f a memory).1 = h a) (items : List α) (memory : σ) :
    (items.mapM f memory).1.map g = items.map h := by
  induction items generalizing memory with
  | nil => rfl
  | cons a items ih =>
      rw [List.mapM_cons, List.map_cons, ← hf a memory, ← ih (f a memory).2]
      rfl

/-- Linking gives each item of a program what the loader answers for it. -/
theorem items_link (load : String → StateM σ (Except LoadError Module)) (language : Language)
    (program : Program) (memory : σ) :
    (program.link load language memory).1.items.map (·.item) = program ∧
      ∀ request answer, .load request answer ∈ (program.link load language memory).1.items →
        ∃ between, answer = (load request.path between).1 := by
  constructor
  · refine (map_mapM (h := id) (fun item memory => ?_) program _).trans (List.map_id program)
    cases item <;> rfl
  · intro request answer hmem
    obtain ⟨item, -, between, hitem⟩ := exists_of_mem_mapM hmem
    cases item with
    | load asked =>
        cases hitem
        exact ⟨between, rfl⟩
    | decl declared => cases hitem

theorem prelude_link (load : String → StateM σ (Except LoadError Module)) (language : Language)
    (program : Program) (memory : σ) :
    (program.link load language memory).1.prelude.map (·.1) = language.prelude ∧
      ∀ path answer, (path, answer) ∈ (program.link load language memory).1.prelude →
        ∃ between, answer = (load path between).1 := by
  constructor
  · exact (map_mapM (h := id) (fun _ _ => rfl) language.prelude memory).trans (List.map_id _)
  · intro path answer hmem
    obtain ⟨asked, -, between, hentry⟩ := exists_of_mem_mapM hmem
    cases hentry
    exact ⟨between, rfl⟩

end Program

namespace Linked

open Check

variable {settings : Settings} {linked : Linked}

/-- The exports of the prelude modules that are loaded, in order. -/
def preluded (linked : Linked) (language : Language) : List Symbol :=
  (linked.prelude.filterMap (·.2.toOption)).flatMap (·.exports language)

/-- The state that the analysis has reached after some items. -/
def reached (linked : Linked) (settings : Settings) (items : List LinkedItem) : State :=
  (checkItems items (linked.env settings) (linked.start settings)).2

theorem loadPrelude_table (tolerant : Bool) (prelude : List (String × Except LoadError Module))
    (env : Env) (s : State) :
    (loadPrelude tolerant prelude env s).2.table = s.table.performAll
      (((prelude.filterMap (·.2.toOption)).flatMap (·.exports env.language)).map .declare) := by
  induction prelude generalizing s with
  | nil => rfl
  | cons entry prelude ih =>
      rcases entry with ⟨path, cause | loaded⟩
      · have hrequire : (require tolerant (.moduleNotLoaded path cause) {} env s).2.table =
            s.table := by
          unfold require
          split <;> rfl
        show ((require tolerant _ _ >>= _) env s).2.table = _
        rw [bind_of_ok (require_ok _ _ _ env s), ih, hrequire]
        rfl
      · show ((declarePrelude _ >>= _) env s).2.table = _
        rw [bind_of_ok (declarePrelude_ok _ env s), ih, declarePrelude_table]
        simp [Except.toOption, Table.performAll]

/-- The root scope in which a program is checked. -/
theorem start_scopes (settings : Settings) (linked : Linked) :
    (linked.start settings).table.current = [] ∧
      (linked.start settings).table.outer = [Table.builtins ++
        Table.builtins.fresh ((linked.preluded settings.language).map (·.declaredAt 0))] := by
  refine ⟨rfl, ?_⟩
  obtain ⟨hcurrent, houter⟩ := Table.performAll_declare Table.initial (linked.preluded settings.language)
  rw [start, State.openScope, Table.outer_push, loadPrelude_table]
  exact congrArg₂ List.cons hcurrent houter

/-- After some items, the scope of the program has the first symbol of each name that they
introduce. -/
theorem reached_gains (settings : Settings) (linked : Linked) (items : List LinkedItem) :
    Table.Gains (firsts (items.flatMap (·.introduced settings.language)))
      (linked.start settings).table (linked.reached settings items).table := by
  have hgains := (checkItems_introduces (linked.env settings) items _
    (sound_start settings linked)).2
  rw [(start_scopes settings linked).1, fresh_nil] at hgains
  exact hgains

theorem headings_reached (settings : Settings) (linked : Linked) (items : List LinkedItem) :
    (linked.reached settings items).table.current.map Symbol.heading =
      (firsts (items.flatMap (·.introduced settings.language))).map Symbol.heading := by
  have hheadings := (reached_gains settings linked items).headings
  rw [(start_scopes settings linked).1] at hheadings
  exact hheadings

/-- What stands in the scope of the program stays there while more items are checked. -/
theorem reached_append (settings : Settings) (linked : Linked) (before after : List LinkedItem) :
    ∃ kept late, (linked.reached settings (before ++ after)).table.current = kept ++ late ∧
      List.Forall₂ Symbol.Similar (linked.reached settings before).table.current kept := by
  have hsound : (linked.reached settings before).Sound :=
    (checkItems_introduces _ before _ (sound_start settings linked)).1
  obtain ⟨kept, late, hcurrent, hkept, -⟩ :=
    (checkItems_introduces (linked.env settings) after _ hsound).2.current
  refine ⟨kept, late, ?_, hkept⟩
  rw [← hcurrent, reached, checkItems_append]
  rfl

/-- An import declares what it introduces, in order and as it is. -/
theorem reached_load (settings : Settings) (linked : Linked) (before : List LinkedItem)
    (request : Import) (answer : Except LoadError Module) :
    (linked.reached settings (before ++ [.load request answer])).table.current =
      (((LinkedItem.load request answer).introduced settings.language).map
        (·.declaredAt 1)).foldl enter (linked.reached settings before).table.current := by
  have hdepth : (linked.reached settings before).table.depth = 1 := by
    have hlength := (reached_gains settings linked before).outer.length_eq
    rw [(start_scopes settings linked).2] at hlength
    rw [Table.depth_eq_length_outer, ← hlength]
    rfl
  have hstep : linked.reached settings (before ++ [.load request answer]) =
      (reporting (checkImport request answer) (linked.env settings)
        (linked.reached settings before)).2 := by
    rw [reached, checkItems_append, checkItems_cons]
    rfl
  rw [hstep, table_reporting, checkImport_table,
    (Table.performAll_declare _ _).1, hdepth, foldl_enter]
  rfl

theorem get?_of_headings {scope : Scope} {symbols : List Symbol}
    (h : scope.map Symbol.heading = symbols.map Symbol.heading) (name : String) :
    (scope.get? name).map Symbol.heading = (Scope.get? symbols name).map Symbol.heading := by
  have hfind : ∀ list : List Symbol, (Scope.get? list name).map Symbol.heading =
      (list.map Symbol.heading).find? (·.name == name) := by
    intro list
    rw [List.find?_map]
    rfl
  rw [hfind, hfind, h]

theorem scopes_of_outer {table : Table} {root : Scope} (h : table.outer = [root]) :
    table.inner = [table.current] ∧ table.root = root := by
  rcases table with ⟨found, _ | ⟨top, _ | ⟨second, others⟩⟩⟩
  · cases h
  · cases h
    exact ⟨rfl, rfl⟩
  · simp [Table.outer] at h

/-- Whatever is wrong with a program and whatever its loader does: the scope of the program lists the
first symbol of each name that its items introduce, in order, and no name twice. What some items have
introduced stays while the others are checked, and an import declares what it introduces as it is. The
root scope lists the built-in types and then the first symbol of each other name that the prelude
exports; besides the states of its variables, the items of the program change nothing there. -/
theorem output_scopes {σ : Type} (settings : Settings)
    (load : String → StateM σ (Except LoadError Module)) (program : Program) (memory : σ) :
    let linked := (program.link load settings.language memory).1
    let introduced := linked.items.flatMap (·.introduced settings.language)
    (linked.items.map (·.item) = program ∧
      ∀ request answer, .load request answer ∈ linked.items →
        ∃ between, answer = (load request.path between).1) ∧
    (linked.prelude.map (·.1) = settings.language.prelude ∧
      ∀ path answer, (path, answer) ∈ linked.prelude →
        ∃ between, answer = (load path between).1) ∧
    ∃ scope, (linked.analyze settings).table.inner = [scope] ∧
      scope.map Symbol.heading = (firsts introduced).map Symbol.heading ∧
      scope.names.Nodup ∧
      (∀ name, (scope.get? name).map Symbol.heading =
        (Scope.get? introduced name).map Symbol.heading) ∧
      (∀ before after, linked.items = before ++ after →
        ∃ kept late, scope = kept ++ late ∧
          kept.names = (firsts (before.flatMap (·.introduced settings.language))).names ∧
          List.Forall₂ Symbol.Similar (linked.reached settings before).table.current kept) ∧
      (∀ before request answer after, linked.items = before ++ .load request answer :: after →
        (linked.reached settings (before ++ [.load request answer])).table.current =
          (((LinkedItem.load request answer).introduced settings.language).map
            (·.declaredAt 1)).foldl enter (linked.reached settings before).table.current) ∧
      Table.builtins.length = 24 ∧
      List.Forall₂ Symbol.Similar
        (Table.builtins ++
          Table.builtins.fresh ((linked.preluded settings.language).map (·.declaredAt 0)))
        (linked.analyze settings).table.root := by
  intro linked introduced
  refine ⟨Program.items_link load settings.language program memory,
    Program.prelude_link load settings.language program memory, ?_⟩
  have htable : (linked.analyze settings).table = (linked.reached settings linked.items).table := by
    rw [analyze_eq]
    rfl
  have hheadings := headings_reached settings linked linked.items
  have hnames := names_eq_of_heading hheadings
  have houter := (reached_gains settings linked linked.items).outer
  rw [(start_scopes settings linked).2] at houter
  obtain ⟨root, rest, hroot, hrest, hsplit⟩ := List.forall₂_cons_left_iff.1 houter
  obtain rfl := List.forall₂_nil_left_iff.1 hrest
  obtain ⟨hinner, hrootscope⟩ := scopes_of_outer hsplit
  rw [htable]
  refine ⟨_, hinner, hheadings, ?_, ?_, ?_, ?_, by decide, hrootscope.symm ▸ hroot⟩
  · rw [hnames]
    exact nodup_names_firsts introduced
  · intro name
    rw [get?_of_headings hheadings, get?_firsts]
  · intro before after hitems
    obtain ⟨kept, late, hcurrent, hkept⟩ := reached_append settings linked before after
    refine ⟨kept, late, by rw [hitems, hcurrent], ?_, hkept⟩
    apply names_eq_of_heading
    rw [map_heading_of_similar hkept, headings_reached]
  · intro before request answer after _
    exact reached_load settings linked before request answer

/-- A program whose import fails, whose variable has a broken value, and that declares `x` twice. -/
def broken : Program :=
  [.load { span := {}, path := "lib" },
    .decl (.var { name := ⟨"x", {}⟩, mutable := false, init := some (.ident {} "missing") }),
    .decl (.routine
      { span := {}, name := ⟨"x", {}⟩, params := [], result := none, body := none }),
    .decl (.type { semantics := .value, name := ⟨"P", {}⟩, params := [], fields := [] })]

/-- The variable is there after its own item and stays, and the type comes after it. -/
theorem output_scopes_broken :
    let load : String → StateM Unit (Except LoadError Module) :=
      fun path => pure (.error (.notFound path))
    let linked := (broken.link load .razorForge ()).1
    ∃ scope, (linked.analyze {}).table.inner = [scope] ∧ scope.names = ["x", "P"] ∧
      (scope.get? "x").map (·.isVar) = some true ∧
      ∃ kept late, scope = kept ++ late ∧ kept.names = ["x"] ∧
        List.Forall₂ Symbol.Similar (linked.reached {} (linked.items.take 2)).table.current kept := by
  intro load linked
  obtain ⟨-, -, scope, hinner, hheadings, -, hget, hstays, -⟩ := output_scopes {} load broken ()
  obtain ⟨kept, late, hsplit, hkept, hsimilar⟩ := hstays (linked.items.take 2)
    (linked.items.drop 2) (List.take_append_drop 2 linked.items).symm
  refine ⟨scope, hinner, (names_eq_of_heading hheadings).trans rfl, ?_, kept, late, hsplit,
    hkept.trans rfl, hsimilar⟩
  calc
    (scope.get? "x").map (·.isVar) = ((scope.get? "x").map Symbol.heading).map (·.isVar) := by
      simp [Function.comp_def]
    _ = some true := by
      rw [hget]
      rfl

end Linked

end Custody
