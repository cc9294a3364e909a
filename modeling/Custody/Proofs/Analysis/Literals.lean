import Custody.Proofs.Check.Complete
import Custody.Proofs.Check.ProperProgram
import Custody.Proofs.Check.Settled

/-! Where the types of unsuffixed literals end. A declaration settles the type that it infers, so that
a variable has one numeric type. A `when` does not: a case that gives a name to a subject with the type
of a literal is the one way for such a type into the table, and the name is then a number of every
type. The table that an analysis ends with is settled for every program. The tables on the way are
settled if and only if no such case is checked; in a program whose `when`s name no literals there is
none. -/

namespace Custody

mutual
/-- Some `when` in the statement gives a name to a subject that is made of unsuffixed literals. -/
def Stmt.namesLiteral : Stmt → Bool
  | .branch _ _ body otherwise =>
      Stmt.anyNamesLiteral body ||
        match otherwise with
        | none => false
        | some stmt => stmt.namesLiteral
  | .choose _ subject arms =>
      subject.isFlexible && arms.any (·.pattern.isBinding) || Stmt.armsNameLiteral arms
  | .whileLoop _ _ body | .forLoop _ _ _ body | .block _ body | .danger _ body | .mayhem _ body
  | .access _ _ _ _ body => Stmt.anyNamesLiteral body
  | _ => false

def Stmt.anyNamesLiteral : List Stmt → Bool
  | [] => false
  | stmt :: stmts => stmt.namesLiteral || Stmt.anyNamesLiteral stmts

def Stmt.armsNameLiteral : List (Arm Stmt) → Bool
  | [] => false
  | ⟨_, _, body⟩ :: arms => Stmt.anyNamesLiteral body || Stmt.armsNameLiteral arms
end

def Decl.namesLiteral : Decl → Bool
  | .routine declared => declared.body.any Stmt.anyNamesLiteral
  | .type _ | .var _ => false

def LinkedItem.namesLiteral : LinkedItem → Bool
  | .load _ _ => false
  | .decl declared => declared.namesLiteral

def Program.namesLiteral (program : Program) : Bool :=
  program.decls.any (·.namesLiteral)

namespace Check

variable {env : Env} {task part : Task} {s t : State}

namespace Task

/-- The types that go from a piece of a program into its parts are settled or those of literals. -/
def Fixable : Task → Prop
  | .arms subject _ => subject.isFixable = true
  | _ => True

/-- If one of the cases binds a name, then not to a literal. -/
def NamesFixed : Task → Prop
  | .arms subject list =>
      (∃ arm ∈ list, arm.pattern.isBinding = true) → subject.isFlexible = false
  | _ => True

/-- Some `when` in the piece gives a name to a literal. -/
def namesLiteral : Task → Bool
  | .stmt statement => statement.namesLiteral
  | .stmts list => Stmt.anyNamesLiteral list
  | .arms subject list =>
      subject.isFlexible && list.any (·.pattern.isBinding) || Stmt.armsNameLiteral list
  | .items list => list.any (·.namesLiteral)
  | _ => false

theorem namesFixed_of_namesLiteral (h : task.namesLiteral = false) : task.NamesFixed := by
  cases task with
  | arms subject arms =>
      rintro ⟨arm, harm, hbinding⟩
      have hany : arms.any (·.pattern.isBinding) = true := List.any_eq_true.2 ⟨arm, harm, hbinding⟩
      simpa [namesLiteral, hany] using (Bool.or_eq_false_iff.1 h).1
  | _ => trivial

theorem not_namesFixed (h : ¬ task.NamesFixed) :
    ∃ subject list, task = .arms subject list ∧ subject.isFlexible = true ∧
      ∃ arm ∈ list, arm.pattern.isBinding = true := by
  cases task with
  | arms subject list =>
      obtain ⟨hbinding, hflexible⟩ := Classical.not_imp.1 h
      exact ⟨subject, list, rfl, eq_true_of_ne_false hflexible, hbinding⟩
  | _ => exact absurd trivial h

/-- What the first case binds is settled. -/
theorem NamesFixed.isSettled {subject : Ty} {pattern : Pattern} {guard : Option Expr}
    {body : List Stmt} {arms : List (Arm Stmt)}
    (h : NamesFixed (.arms subject (⟨pattern, guard, body⟩ :: arms)))
    (hsubject : subject.isFixable = true) (hbinding : pattern.isBinding = true) :
    subject.isSettled = true := by
  have hfixed := h ⟨_, List.mem_cons_self, hbinding⟩
  refine (Ty.isFixable_iff.1 hsubject).resolve_right fun hflexible => ?_
  rw [hfixed] at hflexible
  cases hflexible

end Task

/-- Checking one piece of a program in one state leads, over its parts, to checking the other. -/
def Inside (env : Env) : Task × State → Task × State → Prop :=
  Relation.TransGen fun outer inner => Visits env outer.1 outer.2 inner.1 inner.2

/-- What is declared on the way into a part is settled, as long as no case binds a name to a literal. -/
theorem entering_settled (hs : s.Settled) (htask : task.Fixable)
    (hnames : task.NamesFixed) : Entering env State.Settled task s where
  access := openAccess_settles
  var := checkVar_settles
  element _ hitems hty := declare_settles <| .of_ty
    (Ty.isSettled_element? ((checkExpr_settles _ _).found hs hitems).isFixable hty) rfl
  -- the one place where a type gets into the table as it has been found
  pattern h := by
    subst h
    exact checkPattern_settles (hnames.isSettled htask)
  routine routine := (declareRoutine_settles routine).mono fun _ _ => trivial
  params h := by
    obtain ⟨htys, -⟩ := (declareRoutine_settles _).found hs h
    exact declareParams_settles fun _ hparam => htys _ (List.of_mem_zip hparam).2
  item _ := checkItem_settles _

/-- The way into a part stays among settled states, as long as no case binds a name to a literal. -/
theorem Visits.settled (h : Visits env task s part t) (hs : s.Settled)
    (htask : task.Fixable) (hnames : task.NamesFixed) : t.Settled ∧ part.Fixable := by
  refine ⟨stable_settled.visits h hs (entering_settled hs htask hnames), ?_⟩
  cases h with
  | arms h => exact ((checkExpr_settles _ _).found hs h).isFixable
  | otherArms => exact htask
  | _ => trivial

/-- In a settled state, what is not written in a piece of a program does not come from its parts. -/
theorem Visits.namesLiteral (h : Visits env task s part t) (hs : s.Settled)
    (htask : task.namesLiteral = false) : part.namesLiteral = false := by
  cases h with
  | branchBody =>
      unfold Task.namesLiteral Stmt.namesLiteral at htask
      exact (Bool.or_eq_false_iff.1 htask).1
  | otherwise =>
      rw [Task.namesLiteral, Stmt.namesLiteral, Bool.or_eq_false_iff] at htask
      exact htask.2
  | loopBody | forBody | block | danger | mayhem | accessBody =>
      rw [Task.namesLiteral, Stmt.namesLiteral] at htask
      exact htask
  | @arms _ subject arms _ ty _ h =>
      rw [Task.namesLiteral, Stmt.namesLiteral, Bool.or_eq_false_iff] at htask
      rw [Task.namesLiteral, Bool.or_eq_false_iff]
      refine ⟨?_, htask.2⟩
      cases hflexible : ty.isFlexible with
      | false => rfl
      | true =>
          rw [((checkExpr_settles subject .read).found hs h).isFlexible hflexible] at htask
          exact htask.1
  | firstStmt =>
      rw [Task.namesLiteral, Stmt.anyNamesLiteral, Bool.or_eq_false_iff] at htask
      exact htask.1
  | otherStmts =>
      rw [Task.namesLiteral, Stmt.anyNamesLiteral, Bool.or_eq_false_iff] at htask
      exact htask.2
  | armBody =>
      rw [Task.namesLiteral, Stmt.armsNameLiteral, Bool.or_eq_false_iff, Bool.or_eq_false_iff] at htask
      exact htask.2.1
  | otherArms =>
      rw [Task.namesLiteral, Stmt.armsNameLiteral, Bool.or_eq_false_iff, Bool.or_eq_false_iff,
        List.any_cons] at htask
      rw [Task.namesLiteral, Bool.or_eq_false_iff]
      refine ⟨?_, htask.2.2⟩
      grind
  | routineBody hbody =>
      rw [Task.namesLiteral, List.any_cons, Bool.or_eq_false_iff, LinkedItem.namesLiteral,
        Decl.namesLiteral, hbody] at htask
      exact htask.1
  | otherItems =>
      rw [Task.namesLiteral, List.any_cons, Bool.or_eq_false_iff] at htask
      exact htask.2
  | _ => rfl

end Check

namespace Linked

open Check

variable {settings : Settings} {linked : Linked} {task : Task} {s : State}

theorem settled_initial : initial.Settled := by
  have hbuiltins : Table.builtins.all
      (fun symbol => symbol.ty.isSettled && (symbol.fields?.getD []).isEmpty) = true := by
    decide +kernel
  refine ⟨Ledger.within_empty, Table.all_iff_root.2 ⟨fun symbol hsymbol => ?_, ?_⟩⟩
  · have h := List.all_eq_true.1 hbuiltins symbol hsymbol
    rw [Bool.and_eq_true, List.isEmpty_iff] at h
    exact .of_ty h.1 h.2
  · simp [initial, Table.initial]

theorem settled_start (settings : Settings) (linked : Linked) :
    (linked.start settings).Settled := by
  have hprelude : Leaves (linked.env settings) State.Settled
      (loadPrelude settings.toleratesMissingPrelude linked.prelude) :=
    loadPrelude_leaves (importing_settled _) _ _
  exact (hprelude.left settled_initial).openScope

/-- Up to the end of an analysis, all that has been bound to a literal is gone. -/
theorem settled_analyzed (settings : Settings) (linked : Linked) :
    (linked.analyze settings).table.All Symbol.Settled := by
  have hitems : Leaves (linked.env settings) State.Settled (checkItems linked.items) :=
    checkItems_leaves checkItem_settles _
  rw [analyze_eq]
  exact (hitems.left (settled_start settings linked)).table

/-- A state is settled unless it is reached inside a `when` whose cases bind a name to a literal. -/
theorem Visited.settled_or_inside (h : Visited settings linked task s) :
    s.Settled ∧ task.Fixable ∨ ∃ outer t, Visited settings linked outer t ∧ ¬ outer.NamesFixed ∧
      Inside (linked.env settings) (outer, t) (task, s) := by
  induction h with
  | start => exact .inl ⟨settled_start settings linked, trivial⟩
  | @visit task s part t htask hpart ih =>
      rcases ih with ⟨hs, hfixable⟩ | ⟨outer, u, houter, hnames, hinside⟩
      · -- the piece itself may be the `when` that binds a literal
        by_cases hnames : task.NamesFixed
        · exact .inl (hpart.settled hs hfixable hnames)
        · exact .inr ⟨task, s, htask, hnames, .single hpart⟩
      · exact .inr ⟨outer, u, houter, hnames, hinside.tail hpart⟩

theorem Visited.namesLiteral (hprogram : linked.items.any (·.namesLiteral) = false)
    (h : Visited settings linked task s) :
    (s.Settled ∧ task.Fixable) ∧ task.namesLiteral = false := by
  induction h with
  | start => exact ⟨⟨settled_start settings linked, trivial⟩, hprogram⟩
  | visit htask hpart ih =>
      obtain ⟨⟨hs, hfixable⟩, hnone⟩ := ih
      exact ⟨hpart.settled hs hfixable (Task.namesFixed_of_namesLiteral hnone),
        hpart.namesLiteral hs hnone⟩

/-- After the pattern and the guard of a case, its name is there with the type of the subject. -/
theorem binding_bound {env : Env} (hs : s.Sound) (span : Span) (name : Ident) (subject : Ty)
    (guard : Option Expr) :
    ∃ symbol ∈ ((do
      checkPattern (.binding span name) subject
      checkGuard guard) env s.openScope).2.table.current,
      symbol.isVar = true ∧ symbol.ty = subject := by
  have hpattern : Keeps env (Keeping Symbol.Similar 1) (checkPattern (.binding span name) subject)
      s.openScope := checkPattern_keeps blockFrame_similar _ subject
  have hsound := (hpattern.left hs.openScope).sound hs.openScope
  have hrun := Completes.run (.checkPattern (.binding span name) subject) env s.openScope
  have hnamed : (checkPattern (.binding span name) subject env s.openScope).2.table.current =
      [{ Symbol.var name.name subject false name.span with depth := s.depth + 1 }] := rfl
  rw [bind_of_ok (congrArg Prod.fst hrun)]
  -- the guard may move the variables outside, but it leaves the scope of the case as it is
  generalize (checkPattern (.binding span name) subject env s.openScope).2 = t at hsound hnamed ⊢
  have hguard : Keeps env (Keeping Symbol.Similar 0) (checkGuard guard) t :=
    checkGuard_keeps blockFrame_similar guard
  have hcurrent := (hguard.left hsound).table.forall₂_current
  rw [hnamed] at hcurrent
  generalize (checkGuard guard env t).2.table.current = current at hcurrent ⊢
  cases hcurrent with
  | cons hsimilar _ =>
      obtain ⟨state, rfl⟩ := hsimilar
      exact ⟨_, List.mem_cons_self, rfl, rfl⟩

/-- The body of a case that binds a name is checked, and the name has the type of the subject. -/
theorem Visited.reaches_bound {subject : Ty} {arms : List (Arm Stmt)} {arm : Arm Stmt}
    (h : Visited settings linked (.arms subject arms) s) (harm : arm ∈ arms)
    (hbinding : arm.pattern.isBinding = true) :
    ∃ t, Reachable settings linked t ∧
      ∃ symbol ∈ t.table.current, symbol.isVar = true ∧ symbol.ty = subject := by
  induction arms generalizing s with
  | nil => cases harm
  | cons first arms ih =>
      rcases List.mem_cons.1 harm with rfl | hrest
      · rcases arm with ⟨_ | _ | ⟨span, name⟩, guard, body⟩
        · cases hbinding
        · cases hbinding
        · have hguard := Completes.bind (.checkPattern (.binding span name) subject)
            fun _ => .checkGuard guard
          exact ⟨_, ⟨_, .visit h (.armBody (hguard.run _ _))⟩,
            binding_bound (Reachable.sound ⟨_, h⟩) span name subject guard⟩
      · have hfirst := Completes.arm first.pattern subject first.guard first.body
        exact ih (.visit h (.otherArms (hfirst.withScope.run _ _))) hrest

/-- All variables are settled in all states of an analysis if and only if none of the cases that are
checked binds a name to a literal. -/
theorem settled_iff_namesFixed :
    (∀ s, Reachable settings linked s →
        s.table.All fun symbol => symbol.isVar = true → symbol.ty.isSettled = true) ↔
      ∀ task s, Visited settings linked task s → task.NamesFixed := by
  constructor
  · intro hall task s h
    cases task with
    | arms subject arms =>
        rintro ⟨arm, harm, hbinding⟩
        obtain ⟨t, ht, symbol, hsymbol, hvar, rfl⟩ := h.reaches_bound harm hbinding
        exact Ty.isFlexible_eq_false ((Table.all_iff.1 (hall t ht)).1 symbol hsymbol hvar)
    | _ => trivial
  · rintro hnames s ⟨task, h⟩
    rcases h.settled_or_inside with ⟨hs, -⟩ | ⟨outer, t, houter, hnot, -⟩
    · exact hs.table.mono fun symbol hsymbol _ => hsymbol.ty
    · exact absurd (hnames outer t houter) hnot

end Linked

namespace Program

variable {σ : Type}

/-- The declarations of a program are linked as they are. -/
theorem namesLiteral_link {program : Program} (h : program.namesLiteral = false)
    (load : String → StateM σ (Except LoadError Module)) (language : Language) (memory : σ) :
    (program.link load language memory).1.items.any (·.namesLiteral) = false := by
  refine List.any_eq_false.2 fun item hitem => ?_
  obtain ⟨source, hsource, between, rfl⟩ := exists_of_mem_mapM hitem
  cases source with
  | load request => exact Bool.false_ne_true
  | decl declared =>
      refine List.any_eq_false.1 h declared ?_
      exact List.mem_filterMap.2 ⟨_, hsource, rfl⟩

end Program

namespace Linked

open Check

/-- For every program and every loader, the table of an analysis has no type of an unsuffixed literal
in the end. On the way, a variable has one only inside a `when` with a case that binds a name to a
subject of such a type, and if there is such a `when` then some variable has one. If no `when` of the
program names a literal, none ever has. A variable without one is a number of one type at most. -/
theorem literals_fixed_iff {σ : Type} (settings : Settings)
    (load : String → StateM σ (Except LoadError Module)) (program : Program) (memory : σ) :
    let linked := (program.link load settings.language memory).1
    (linked.analyze settings).table.All Symbol.Settled ∧
    (∀ task s, Visited settings linked task s →
      (s.table.All fun symbol => symbol.isVar = true → symbol.ty.isSettled = true) ∨
      ∃ subject arms t, Visited settings linked (.arms subject arms) t ∧
        subject.isFlexible = true ∧ (∃ arm ∈ arms, arm.pattern.isBinding = true) ∧
        Inside (linked.env settings) (.arms subject arms, t) (task, s)) ∧
    ((∀ s, Reachable settings linked s →
        s.table.All fun symbol => symbol.isVar = true → symbol.ty.isSettled = true) ↔
      ∀ subject arms s, Visited settings linked (.arms subject arms) s →
        (∃ arm ∈ arms, arm.pattern.isBinding = true) → subject.isFlexible = false) ∧
    (program.namesLiteral = false → ∀ s, Reachable settings linked s →
      s.table.All fun symbol => symbol.isVar = true → symbol.ty.isSettled = true) ∧
    ∀ s, Reachable settings linked s → s.table.All fun symbol =>
      symbol.ty.isSettled = true → symbol.ty.strip ≠ .unknown → ∀ m n,
        (Ty.num m).accepts symbol.ty = true → (Ty.num n).accepts symbol.ty = true → m = n := by
  intro linked
  refine ⟨settled_analyzed settings linked, ?_, ?_, ?_, ?_⟩
  · intro task s hvisited
    rcases hvisited.settled_or_inside with ⟨hs, -⟩ | ⟨outer, t, houter, hnot, hinside⟩
    · exact .inl (hs.table.mono fun symbol hsymbol _ => hsymbol.ty)
    · obtain ⟨subject, arms, rfl, hflexible, hbinding⟩ := Task.not_namesFixed hnot
      exact .inr ⟨subject, arms, t, houter, hflexible, hbinding, hinside⟩
  · rw [settled_iff_namesFixed]
    refine ⟨fun h subject arms s => h (.arms subject arms) s, fun h task s hvisited => ?_⟩
    cases task with
    | arms subject arms => exact h subject arms s hvisited
    | _ => trivial
  · intro hprogram
    rw [settled_iff_namesFixed]
    intro task s hvisited
    have hitems := Program.namesLiteral_link hprogram load settings.language memory
    exact Task.namesFixed_of_namesLiteral (hvisited.namesLiteral hitems).2
  · intro s hs scope hscope symbol hsymbol hsettled hknown m n hm hn
    have hclosed := (hs.proper.table scope hscope symbol hsymbol).closed
    exact Ty.num_eq_of_accepts hsettled hclosed hknown hm hn

/-- A routine that, after `first`, names the subject of a `when` in its only case. -/
def naming (first : List Stmt) (subject : Expr) (body : List Stmt) : Program :=
  [.decl (.routine {
    span := {}
    name := ⟨"f", {}⟩
    params := []
    result := none
    body := some (first ++ [.choose {} subject [⟨.binding {} ⟨"x", {}⟩, none, body⟩]]) })]

/-- A variable takes the default type before it is named. -/
theorem literals_fixed_iff_variable :
    let load : String → StateM Unit (Except LoadError Module) :=
      fun path => pure (.error (.notFound path))
    let program := naming
      [.var {} { name := ⟨"n", {}⟩, mutable := false, init := some (.literal {} (.int 5 none)) }]
      (.ident {} "n") []
    let linked := (program.link load .razorForge ()).1
    program.namesLiteral = false ∧ ∃ s symbol, Reachable {} linked s ∧ symbol ∈ s.table.current ∧
      symbol.name = "x" ∧ symbol.ty.isSettled = true ∧
      ∀ m, (Ty.num m).accepts symbol.ty = true ↔ m = .s64 := by
  intro load program linked
  obtain ⟨-, -, -, hall, hone⟩ := literals_fixed_iff {} load program ()
  have hprogram : program.namesLiteral = false := by decide +kernel
  have hvisited : ∃ s, Reachable {} linked s ∧
      s.table.current = [{ Symbol.var "x" (.num .s64) false {} with depth := 3 }] :=
    ⟨_, ⟨_, .visit (.visit (.visit (.visit (.visit .start (.routineBody rfl rfl rfl))
      (.otherStmts rfl)) .firstStmt) (.arms rfl)) (.armBody rfl)⟩, rfl⟩
  obtain ⟨s, hs, hcurrent⟩ := hvisited
  have hmem : { Symbol.var "x" (.num .s64) false {} with depth := 3 } ∈ s.table.current := by
    rw [hcurrent]
    exact List.mem_singleton_self _
  have hsettled := (Table.all_iff.1 (hall hprogram s hs)).1 _ hmem rfl
  refine ⟨hprogram, s, _, hs, hmem, rfl, hsettled, fun m => ⟨fun hm => ?_, ?_⟩⟩
  · exact (Table.all_iff.1 (hone s hs)).1 _ hmem hsettled (by decide) m .s64 hm rfl
  · rintro rfl
    rfl

/-- A case that names a literal: the name is used as an `s32` and as an `s64`, and nothing is
reported. -/
theorem named_literal_not_fixed :
    let load : String → StateM Unit (Except LoadError Module) :=
      fun path => pure (.error (.notFound path))
    let use : String → String → Stmt := fun name type => .var {}
      { name := ⟨name, {}⟩, mutable := false, type := some (.named {} ⟨type, {}⟩ [])
        init := some (.ident {} "x") }
    let program := naming [] (.literal {} (.int 5 none)) [use "a" "s32", use "b" "s64"]
    let linked := (program.link load .razorForge ()).1
    (linked.analyze {}).diagnostics = [] ∧ ∃ s symbol, Reachable {} linked s ∧
      symbol ∈ s.table.current ∧ symbol.isVar = true ∧ symbol.ty = .intLiteral ∧
      (Ty.num .s32).accepts symbol.ty = true ∧ (Ty.num .s64).accepts symbol.ty = true := by
  intro load use program linked
  have hvisited : ∃ s, Reachable {} linked s ∧
      s.table.current = [{ Symbol.var "x" .intLiteral false {} with depth := 3 }] :=
    ⟨_, ⟨_, .visit (.visit (.visit (.visit .start (.routineBody rfl rfl rfl)) .firstStmt)
      (.arms rfl)) (.armBody rfl)⟩, rfl⟩
  obtain ⟨s, hs, hcurrent⟩ := hvisited
  have hmem : { Symbol.var "x" .intLiteral false {} with depth := 3 } ∈ s.table.current := by
    rw [hcurrent]
    exact List.mem_singleton_self _
  exact ⟨by decide +kernel, s, _, hs, hmem, rfl, rfl, rfl, rfl⟩

end Linked

end Custody
