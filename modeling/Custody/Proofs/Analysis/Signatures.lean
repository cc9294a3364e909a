import Custody.Proofs.Analysis.Walk

/-! Importers see nothing of a module but the signatures of its exports. The analysis keeps whole modules
and reads its exports wherever a name is asked for, so two analyses whose loaders give modules with the
same signatures are run side by side: what they find in a module is the same at each place, and so is
all that they report and leave. It does not depend either on when a module is loaded: a check that walks
through the program, loads modules where they are asked for and knows no others comes to the same. -/

namespace Custody

open Check

/-! ### Signatures -/

/-- The modules have one path, and importers see the same exports in the same order. -/
structure Module.SameSignatures (language : Language) (left right : Module) : Prop where
  path : right.path = left.path
  exports : right.exports language = left.exports language

/-- The loaders fail alike, or they give modules with the same signatures. -/
inductive SameSignatures (language : Language) :
    Except LoadError Module → Except LoadError Module → Prop
  | error (cause : LoadError) : SameSignatures language (.error cause) (.error cause)
  | ok {left right : Module} (h : left.SameSignatures language right) :
      SameSignatures language (.ok left) (.ok right)

namespace Decl

/-- The declaration without the body of a routine. -/
def outline : Decl → Decl
  | .routine declared => .routine { declared with body := none }
  | .type declared => .type declared
  | .var declared => .var declared

theorem visibility_outline (decl : Decl) : decl.outline.visibility = decl.visibility := by
  cases decl <;> rfl

theorem symbol_outline (language : Language) (decl : Decl) :
    decl.outline.symbol language = decl.symbol language := by
  cases decl <;> rfl

end Decl

namespace Module

/-- The exports of a module without the bodies of routines, and nothing else. -/
def outline (module : Module) : Module where
  path := module.path
  program := module.program.exports.map fun decl => .decl decl.outline

theorem exports_outline (module : Module) :
    module.outline.program.exports = module.program.exports.map Decl.outline := by
  have hdecls : ∀ decls : List Decl,
      Program.decls (decls.map fun decl => .decl decl.outline) = decls.map Decl.outline := by
    intro decls
    induction decls with
    | nil => rfl
    | cons decl decls ih => exact congrArg (decl.outline :: ·) ih
  rw [Program.exports, outline, hdecls, List.filter_eq_self]
  intro decl hdecl
  obtain ⟨exported, hexported, rfl⟩ := List.mem_map.1 hdecl
  rw [Decl.visibility_outline]
  exact (List.mem_filter.1 hexported).2

end Module

theorem sameSignatures_outline (language : Language) (answer : Except LoadError Module) :
    SameSignatures language answer (answer.map Module.outline) := by
  cases answer with
  | error cause => exact .error cause
  | ok loaded =>
      refine .ok ⟨rfl, ?_⟩
      rw [Module.exports, Module.exports, Module.exports_outline, List.map_map]
      exact List.map_congr_left fun decl _ => Decl.symbol_outline language decl

/-! ### Members -/

namespace Decl

theorem name_symbol (language : Language) (decl : Decl) :
    (decl.symbol language).name = decl.name.name := by
  cases decl <;> rfl

end Decl

namespace Module

variable {language : Language}

/-- A member of a module is found among its exports. -/
theorem exported?_eq (module : Module) (language : Language) (name : String) :
    module.exported? language name = (module.exports language).find? (·.name == name) := by
  rw [exported?, exports, List.find?_map]
  congr 2
  funext decl
  rw [Function.comp_apply, Decl.name_symbol]

theorem map_path_eq {modules modules' : List Module}
    (h : List.Forall₂ (SameSignatures language) modules modules') :
    modules'.map (·.path) = modules.map (·.path) := by
  induction h with
  | nil => rfl
  | cons hmodule _ ih => rw [List.map_cons, List.map_cons, hmodule.path, ih]

theorem map_exports_eq {modules modules' : List Module}
    (h : List.Forall₂ (SameSignatures language) modules modules') :
    modules'.map (·.exports language) = modules.map (·.exports language) := by
  induction h with
  | nil => rfl
  | cons hmodule _ ih => rw [List.map_cons, List.map_cons, hmodule.exports, ih]

theorem find?_of_sameSignatures {modules modules' : List Module}
    (h : List.Forall₂ (SameSignatures language) modules modules') (path : String) :
    Option.Rel (SameSignatures language) (modules.find? (·.path == path))
      (modules'.find? (·.path == path)) := by
  induction h with
  | nil => exact .none
  | cons hmodule _ ih =>
      rw [List.find?_cons, List.find?_cons, hmodule.path]
      split
      · exact .some hmodule
      · exact ih

/-- Modules with the same signatures have the same members. -/
theorem member?_of_sameSignatures {modules modules' : List Module}
    (h : List.Forall₂ (SameSignatures language) modules modules') (path name : String) :
    Env.member? ⟨language, modules'⟩ path name = Env.member? ⟨language, modules⟩ path name := by
  unfold Env.member?
  rcases rel_cases (find?_of_sameSignatures h path) with
    ⟨hleft, hright⟩ | ⟨left, right, hleft, hright, hsame⟩
  · rw [hleft, hright]
  · rw [hleft, hright, Option.bind_some, Option.bind_some, exported?_eq, exported?_eq, hsame.exports]

end Module

/-! ### Two analyses -/

/-- The same declaration, or the same import with modules of the same signatures. -/
inductive LinkedItem.SameSignatures (language : Language) : LinkedItem → LinkedItem → Prop
  | decl (decl : Decl) : SameSignatures language (.decl decl) (.decl decl)
  | load {request : Import} {answer answer' : Except LoadError Module}
      (h : Custody.SameSignatures language answer answer') :
      SameSignatures language (.load request answer) (.load request answer')

/-- The same is reported and declared, and the modules that have been loaded have the same
signatures. -/
structure Analysis.SeenAlike (language : Language) (left right : Analysis) : Prop where
  diagnostics : right.diagnostics = left.diagnostics
  table : right.table = left.table
  paths : right.modules.map (·.path) = left.modules.map (·.path)
  exports : right.modules.map (·.exports language) = left.modules.map (·.exports language)

theorem SameSignatures.toOption {language : Language} {left right : Except LoadError Module}
    (h : SameSignatures language left right) :
    Option.Rel (Module.SameSignatures language) left.toOption right.toOption := by
  cases h with
  | error => exact .none
  | ok hmodule => exact .some hmodule

namespace Linked

variable {language : Language} {linked linked' : Linked}

/-- The programs ask for the same and declare the same, and the modules they get have the same
signatures. -/
structure SameSignatures (language : Language) (linked linked' : Linked) : Prop where
  prelude : List.Forall₂ (fun entry entry' => entry'.1 = entry.1 ∧
    Custody.SameSignatures language entry.2 entry'.2) linked.prelude linked'.prelude
  items : List.Forall₂ (LinkedItem.SameSignatures language) linked.items linked'.items

theorem firstOfPath_of_sameSignatures {done done' rest rest' : List Module}
    (hdone : List.Forall₂ (Module.SameSignatures language) done done')
    (hrest : List.Forall₂ (Module.SameSignatures language) rest rest') :
    List.Forall₂ (Module.SameSignatures language) (firstOfPath done rest)
      (firstOfPath done' rest') := by
  induction hrest generalizing done done' with
  | nil => exact hdone
  | @cons loaded loaded' rest rest' hloaded _ ih =>
      have hpaths : done'.map (·.path) = done.map (·.path) := Module.map_path_eq hdone
      have hany : done'.any (·.path == loaded'.path) = done.any (·.path == loaded.path) := by
        have hmap : ∀ modules : List Module, modules.any (·.path == loaded.path) =
            (modules.map (·.path)).any (· == loaded.path) := by
          intro modules
          rw [List.any_map]
          rfl
        rw [hloaded.path, hmap, hmap, hpaths]
      rw [firstOfPath, firstOfPath, hany]
      split
      · exact ih hdone
      · exact ih (List.rel_append hdone (.cons hloaded .nil))

/-- The modules of the two programs, one by one. -/
theorem SameSignatures.modules (h : linked.SameSignatures language linked') :
    List.Forall₂ (Module.SameSignatures language) linked.modules linked'.modules := by
  refine firstOfPath_of_sameSignatures .nil (List.rel_append ?_ ?_)
  · exact List.rel_filterMap (fun _ _ hentry => hentry.2.toOption) h.prelude
  · refine List.rel_filterMap (fun item item' hitem => ?_) h.items
    cases hitem with
    | decl => exact .none
    | load hanswer => exact hanswer.toOption

/-- Two analyses of programs with the same signatures, side by side. Whatever a check reads of a module,
it finds the same in both runs. -/
theorem SameSignatures.analyze {settings : Settings}
    (h : linked.SameSignatures settings.language linked') :
    (linked.analyze settings).SeenAlike settings.language (linked'.analyze settings) := by
  have hmodules := h.modules
  have hknows : ∀ s t path,
      (Pairing.within settings.language linked.modules linked'.modules s t).Knows path :=
    fun _ _ => Module.member?_of_sameSignatures hmodules
  have hbrings : ∀ {s answer answer'}, Custody.SameSignatures settings.language answer answer' →
      (Pairing.within settings.language linked.modules linked'.modules s s).twins.Brings
        answer answer' := by
    intro s answer answer' hanswer
    cases hanswer with
    | error cause => exact .missing cause
    | ok hmodule => exact .loaded hmodule.path (hknows s s _) hmodule.exports
  -- the two runs start from one state, so that related states are the same again
  have hsame : ∀ {check check' : Check Unit} {s : State},
      (Pairing.within settings.language linked.modules linked'.modules s s).twins.Couples 0 Eq
        check check' →
      (check' (linked'.env settings) s).2 = (check (linked.env settings) s).2 := by
    intro check check' s hcouples
    obtain ⟨hsilent, -, new, hleft, hright⟩ := Pairing.meets_within hcouples rfl
      fun _ _ _ _ path _ => hknows s s path
    exact (State.eq_of_silent hsilent (hleft.trans hright.symm)).symm
  have hstart : linked'.start settings = linked.start settings := by
    refine congrArg State.openScope (hsame (Coupling.loadPrelude_couples (Pairing.whole_twins rfl) _ ?_))
    exact h.prelude.imp fun _ _ hentry => ⟨hentry.1, hbrings hentry.2⟩
  have hfinal : (checkItems linked'.items (linked'.env settings) (linked.start settings)).2 =
      (checkItems linked.items (linked.env settings) (linked.start settings)).2 := by
    refine hsame (Coupling.checkItems_couples (Pairing.whole_twins rfl) ?_)
    refine h.items.imp fun item item' hitem => ?_
    cases hitem with
    | decl decl => exact Pairing.admits_decl decl
    | load hanswer => exact .load (hbrings hanswer)
  refine ⟨?_, ?_, Module.map_path_eq hmodules, Module.map_exports_eq hmodules⟩
  · rw [analyze_eq, analyze_eq, hstart, hfinal]
  · rw [analyze_eq, analyze_eq, hstart, hfinal]

end Linked

namespace Program

variable {load load' : String → Except LoadError Module}

theorem sameSignatures_link {language : Language}
    (h : ∀ path, SameSignatures language (load path) (load' path)) (program : Program) :
    Linked.SameSignatures language (Id.run (program.link (fun path => pure (load path)) language))
      (Id.run (program.link (fun path => pure (load' path)) language)) := by
  rw [link_pure, link_pure]
  constructor
  · rw [List.forall₂_map_left_iff, List.forall₂_map_right_iff]
    exact List.forall₂_same.2 fun path _ => ⟨rfl, h path⟩
  · rw [List.forall₂_map_left_iff, List.forall₂_map_right_iff]
    refine List.forall₂_same.2 fun item _ => ?_
    cases item with
    | load request => exact .load (h request.path)
    | decl decl => exact .decl decl

/-- Two loaders that give modules with the same signatures give analyses that report and declare the
same and know the same paths, and so does one that gives nothing but signatures: no hidden declarations,
no bodies and no imports. Moreover the analysis is a walk through the program that loads modules where
they are asked for. -/
theorem importers_see_signatures_only (settings : Settings)
    (load load' : String → Except LoadError Module)
    (h : ∀ path, SameSignatures settings.language (load path) (load' path)) (program : Program) :
    (analyze settings load program).SeenAlike settings.language (analyze settings load' program) ∧
      (analyze settings load program).SeenAlike settings.language
        (analyze settings (fun path => (load path).map Module.outline) program) ∧
      (Walk.run settings load program).analysis = analyze settings load program := by
  refine ⟨(sameSignatures_link h program).analyze, (sameSignatures_link ?_ program).analyze,
    Walk.analysis_run settings load program⟩
  exact fun path => sameSignatures_outline settings.language (load path)

/-- A module with these items in front of an exported routine `area`, which has this body. -/
def library (others : Program) (body : Option (List Stmt)) : Module where
  path := "lib"
  program := others ++ [.decl (.routine {
    span := {}
    name := ⟨"area", {}⟩
    params := []
    result := some (.named {} ⟨"s64", {}⟩ [])
    body
    visibility := .exported })]

/-- A loader that has just one module. -/
def only (module : Module) (path : String) : Except LoadError Module :=
  if path = module.path then .ok module else .error (.notFound path)

/-- An import that asks for a missing module, and a variable that importers do not see. -/
def concealed : Program :=
  [.load { span := {}, path := "missing" },
    .decl (.var { name := ⟨"secret", {}⟩, mutable := false, init := some (.literal {} (.bool true)) })]

/-- A program that imports `lib` under the name `l`, and uses two of its names. -/
def importing : Program :=
  [.load { span := {}, path := "lib", name := some ⟨"l", {}⟩ },
    .decl (.routine {
      span := {}
      name := ⟨"f", {}⟩
      params := []
      result := none
      body := some
        [.expr {} (.call {} (.member {} (.ident {} "l") ⟨"area", {}⟩) []),
          .expr {} (.member {} (.ident {} "l") ⟨"secret", {}⟩)] })]

/-- In particular where one module has no body for its export, and the other has one, hides a variable
that the program asks for, and imports a module that is missing. -/
theorem importers_see_signatures_only_concealed :
    let bare := library [] none
    let full := library concealed (some [.give {} (some (.literal {} (.int 1 none)))])
    (bare.program.length, full.program.length) = (1, 3) ∧
      (∀ path, SameSignatures .razorForge (only bare path) (only full path)) ∧
      (analyze {} (only bare) importing).diagnostics.length = 1 ∧
      (analyze {} (only bare) importing).modules.map (·.path) = ["lib"] ∧
      (analyze {} (only full) importing).modules.map (·.program.length) = [3] ∧
      (analyze {} (only bare) importing).SeenAlike .razorForge (analyze {} (only full) importing) := by
  intro bare full
  have hsame : ∀ path, SameSignatures .razorForge (only bare path) (only full path) := by
    intro path
    have hpath : full.path = bare.path := rfl
    rw [only, only, hpath]
    split
    · exact .ok ⟨rfl, rfl⟩
    · exact .error _
  exact ⟨rfl, hsame, by decide +kernel, by decide +kernel, by decide +kernel,
    (importers_see_signatures_only {} (only bare) (only full) hsame importing).1⟩

end Program

end Custody
