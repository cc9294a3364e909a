import Custody.Proofs.Check.ProperProgram
import Custody.Proofs.Check.Twins

/-! The two languages agree but for moves and for what Suflae does not support. A program that needs no
modules and declares all its variables with their types is checked in both of them side by side. What
has been moved in RazorForge shows in nothing but the report of its use, and what Suflae does not
support is reported and then checked as in RazorForge. -/

namespace Custody

open Check

/-- RazorForge on the left and Suflae on the right, without modules. -/
def Pairing.bilingual : Pairing where
  left := ⟨.razorForge, []⟩
  right := ⟨.suflae, []⟩
  languages := .inr ⟨rfl, rfl⟩

namespace Pairing

theorem crosses_bilingual : bilingual.crosses = true :=
  rfl

variable {n : Nat} {s t : State}

theorem diagnostics_bilingual (h : bilingual.twins.Related n s t) :
    t.diagnostics.filter (!·.fault.isUnsupported) = s.diagnostics := by
  obtain ⟨new, new', hleft, hright, hmatches⟩ := h.reports
  have hfilter : new'.filter (!·.fault.isUnsupported) = new := Reading.reports_eq_of_written hmatches
  rw [hright, hleft, ← hfilter]
  rfl

theorem scopes_bilingual (h : bilingual.twins.Related n s t) :
    t.table.scopes = s.table.scopes.map (·.map (Symbol.setState .live)) := by
  have hlive := (h.table.symbols).mono fun _ _ htwins => (htwins.eq_live crosses_bilingual).symm
  exact hlive.map_scopes.symm

theorem related_initial :
    bilingual.twins.Related 1 Linked.initial.openScope Linked.initial.openScope := by
  have hlive : Table.initial.All (·.isMoved = false) :=
    (Table.proper_initial .suflae).mono fun _ hsymbol => hsymbol.live rfl
  have htwins : ∀ symbol ∈ Table.initial.root, bilingual.Twins symbol symbol := by
    intro symbol hsymbol
    exact .of_live fun _ => (Table.all_iff_root.1 hlive).1 symbol hsymbol
  have htwinned : bilingual.Twinned 0 Table.initial Table.initial :=
    ⟨Nat.zero_le _, ⟨List.forall₂_same.2 htwins, .nil⟩, hlive.mono fun _ _ _ _ _ => rfl⟩
  have hinitial : bilingual.twins.Related 0 Linked.initial Linked.initial :=
    ⟨htwinned, rfl, rfl, rfl, rfl, [], [], rfl, rfl, .nil⟩
  exact hinitial.openScope

end Pairing

namespace Program

variable {program : Program}

theorem map_answer_of_imports (load : String → Except LoadError Module)
    (h : program.imports = []) : program.map (answer load) = program.decls.map .decl := by
  induction program with
  | nil => rfl
  | cons item program ih =>
      cases item with
      | load request => cases h
      | decl decl => exact congrArg (LinkedItem.decl decl :: ·) (ih h)

/-- The analysis of a program that needs no modules and gets none. -/
theorem analyze_of_missing (causes : String → LoadError) (language : Language)
    (h : program.imports = []) :
    analyze ⟨language, true⟩ (fun path => .error (causes path)) program =
      let final := (checkItems (program.decls.map .decl) ⟨language, []⟩ Linked.initial.openScope).2
      { diagnostics := final.diagnostics, table := final.table, modules := [] } := by
  let prelude : List (String × Except LoadError Module) :=
    language.prelude.map fun path => (path, .error (causes path))
  have hprelude : prelude.filterMap (·.2.toOption) = [] := by
    cases language <;> rfl
  have hmodules : Linked.modules ⟨prelude, program.decls.map .decl⟩ = [] := by
    simp [Linked.modules, Linked.answers, hprelude, Linked.firstOfPath]
  have hlink := link_pure (fun path => .error (causes path)) language program
  rw [map_answer_of_imports _ h] at hlink
  have hanalyze : analyze ⟨language, true⟩ (fun path => .error (causes path)) program =
      Linked.analyze ⟨prelude, program.decls.map .decl⟩ ⟨language, true⟩ :=
    congrArg (Linked.analyze · ⟨language, true⟩) hlink
  rw [hanalyze, Linked.analyze_eq, Linked.start_of_missing hprelude, Linked.env, hmodules]

/-- A program that needs no modules and declares its variables with their types is analysed alike in
both languages, if no use of a moved value is reported: Suflae reports in addition what it does not
support, and has its values where RazorForge has moved them. -/
theorem languages_agree_up_to_moves (causes : String → LoadError) (program : Program)
    (himports : program.imports = [])
    (hannotated : ∀ decl ∈ program.decls, decl.isAnnotated = true) :
    let load : String → Except LoadError Module := fun path => .error (causes path)
    let razorForge := analyze ⟨.razorForge, true⟩ load program
    let suflae := analyze ⟨.suflae, true⟩ load program
    (∀ diagnostic ∈ razorForge.diagnostics, diagnostic.fault.isUseAfterMove = false) →
      suflae.diagnostics.filter (!·.fault.isUnsupported) = razorForge.diagnostics ∧
      suflae.table.scopes = razorForge.table.scopes.map (·.map (Symbol.setState .live)) := by
  intro load razorForge suflae hunmoved
  have hadmits : List.Forall₂ Pairing.bilingual.twins.Admits
      (program.decls.map LinkedItem.decl) (program.decls.map LinkedItem.decl) := by
    refine List.forall₂_same.2 fun item hitem => ?_
    obtain ⟨decl, hdecl, rfl⟩ := List.mem_map.1 hitem
    exact .decl fun _ => hannotated decl hdecl
  simp only [razorForge, suflae, load, analyze_of_missing causes _ himports] at hunmoved ⊢
  have hagrees : Pairing.bilingual.twins.Agrees 1 (checkItems (program.decls.map .decl)) :=
    Coupling.checkItems_couples (Pairing.whole_twins rfl) hadmits
  rcases hagrees.meets Pairing.related_initial with
    hspoiled | ⟨-, hrelated⟩
  · obtain ⟨diagnostic, hmem, hfault⟩ := hspoiled.exists_of_ok (checkItems_ok _ _ _)
    rw [hunmoved diagnostic hmem] at hfault
    cases hfault
  · exact ⟨Pairing.diagnostics_bilingual hrelated, Pairing.scopes_bilingual hrelated⟩

/-- An entity `Box`, a variable that holds a box, and a routine that takes over its value, views it as
`v`, and uses a name that is not declared. -/
def lending : Program :=
  let box : TypeExpr := .named {} ⟨"Box", {}⟩ []
  [.decl (.type { semantics := .reference, name := ⟨"Box", {}⟩, params := [], fields := [] }),
    .decl (.var {
      name := ⟨"b", {}⟩
      mutable := false
      type := some box
      init := some (.construct {} ⟨"Box", {}⟩ []) }),
    .decl (.routine {
      span := {}
      name := ⟨"lend", {}⟩
      params := []
      result := none
      body := some
        [.var {} {
            name := ⟨"c", {}⟩
            mutable := false
            type := some box
            init := some (.ident {} "b") },
          .access {} .viewing ⟨"c", {}⟩ ⟨"v", {}⟩ [.expr {} (.ident {} "d")]] })]

/-- In particular where a value has moved that is not used any more, and where Suflae does not support
the access to it. -/
theorem languages_agree_up_to_moves_lending :
    let load : String → Except LoadError Module := fun path => .error (.notFound path)
    let razorForge := analyze ⟨.razorForge, true⟩ load lending
    let suflae := analyze ⟨.suflae, true⟩ load lending
    (razorForge.table.find? "b").map (·.isMoved) = some true ∧
      razorForge.diagnostics.map (·.fault.isUnsupported) = [false] ∧
      suflae.diagnostics.map (·.fault.isUnsupported) = [true, false] ∧
      suflae.diagnostics.filter (!·.fault.isUnsupported) = razorForge.diagnostics ∧
      suflae.table.scopes = razorForge.table.scopes.map (·.map (Symbol.setState .live)) := by
  intro load razorForge suflae
  have hunmoved : razorForge.diagnostics.all (!·.fault.isUseAfterMove) = true := by decide +kernel
  have hagree := languages_agree_up_to_moves .notFound lending rfl (by decide +kernel)
    fun diagnostic hmem => by simpa using List.all_eq_true.1 hunmoved diagnostic hmem
  exact ⟨by decide +kernel, by decide +kernel, by decide +kernel, hagree⟩

end Program

end Custody
