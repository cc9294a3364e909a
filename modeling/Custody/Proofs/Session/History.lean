import Custody.Proofs.Library.Restack
import Custody.Proofs.Session.Asking

/-! What a check in a session owes to the checks before it. A check that is made after others and the
same check on an empty store are two runs that get the same answer to every request, as long as they
agree on which paths are being loaded. A path that is in the store does not count as being loaded,
and the entry of a check can have been put there by an earlier one: only in this way the history of a
session shows. -/

namespace Custody

namespace Store

variable {answers : String → Except LoadError Program} {fetch : Fetch} {store after : Store}
  {base : Option String} {stack : List String}

/-! ### Requests while a program is checked -/

theorem Sound.of_modules_eq (h : store.Sound answers) (hmodules : after.modules = store.modules) :
    after.Sound answers where
  ordered := ⟨by rw [paths, hmodules]; exact h.ordered.distinct, by
    rw [hmodules]
    exact h.ordered.importsEarlier⟩
  answered := by
    rw [hmodules]
    exact h.answered

/-- Specifiers are resolved from `base`, and of the paths that are being loaded those on the stack are
not in the store. -/
structure Ready (answers : String → Except LoadError Program) (base : Option String)
    (stack : List String) (store : Store) : Prop where
  sound : store.Sound answers
  base_eq : store.loading.getLast? = base
  alike : Alike (store.get? · = none) store.loading stack
  absent : ∀ path ∈ stack, store.get? path = none

theorem Ready.loaded (h : Ready answers base stack store)
    (hanswers : ∀ asked path, fetch asked path = answers path) {path : String}
    {result : Except LoadError Module} (hload : Loads fetch store.loading path store result after) :
    Yields answers stack path result ∧ Ready answers base stack after := by
  have hstack := hload.restack h.alike
  have htraced := hstack.traced.1
  refine ⟨hstack.yields hanswers h.sound h.absent, h.sound.steps hanswers htraced.steps, ?_, ?_, ?_⟩
  · rw [htraced.steps.loading_eq]
    exact h.base_eq
  · rw [htraced.steps.loading_eq]
    exact h.alike.mono htraced.steps.absent
  · exact fun p hp => htraced.absent p hp (h.absent p hp)

theorem Ready.exists_loads (h : Ready answers base stack store)
    (hanswers : ∀ asked path, fetch asked path = answers path) {path : String}
    {result : Except LoadError Module} (hyields : Yields answers stack path result) :
    ∃ after, Loads fetch store.loading path store result after ∧ Ready answers base stack after := by
  obtain ⟨after, hload⟩ := hyields.loads hanswers h.sound h.absent
  have hloading : Loads fetch store.loading path store result after :=
    hload.restack fun p hp => (h.alike p hp).symm
  exact ⟨after, hloading, (h.loaded hanswers hloading).2⟩

theorem resolve_congr {store' : Store} (h : store'.loading.getLast? = store.loading.getLast?)
    (specifier : String) : store'.resolve specifier = store.resolve specifier := by
  rw [resolve, resolve, h]

theorem resolve_eq_ok_iff {specifier path : String} :
    store.resolve specifier = .ok path ↔
      Path.resolve specifier store.loading.getLast? = .ok path := by
  unfold resolve
  cases Path.resolve specifier store.loading.getLast? <;> simp

/-- Two stores give one answer to a request if their stacks are alike for what it leads to. -/
theorem agrees_requests {stack' : List String}
    (hanswers : ∀ asked path, fetch asked path = answers path) {specifier : String}
    (halike : ∀ path, Path.resolve specifier base = .ok path →
      Alike (Reaches answers path) stack stack') :
    Asking.Agrees (Ready answers base stack) (Ready answers base stack')
      (fun store outcome => Requests fetch specifier store outcome.1 outcome.2) := by
  intro store store' result after hready hready' hrun
  have hresolve' := resolve_congr (hready'.base_eq.trans hready.base_eq.symm) specifier
  cases hrun with
  | unresolved hresolve => exact ⟨hready, store', .unresolved (hresolve'.trans hresolve), hready'⟩
  | @resolved path _ _ hresolve hload =>
      obtain ⟨hyields, hafter⟩ := hready.loaded hanswers hload
      have hpath : Path.resolve specifier base = .ok path :=
        hready.base_eq ▸ resolve_eq_ok_iff.1 hresolve
      obtain ⟨after', hload', hafter'⟩ :=
        hready'.exists_loads hanswers (hyields.restack (halike path hpath))
      exact ⟨hafter, after', .resolved (hresolve'.trans hresolve) hload', hafter'⟩

theorem agrees_links {stack' : List String} {language : Language} {program : Program}
    (hanswers : ∀ asked path, fetch asked path = answers path)
    (halike : ∀ specifier ∈ program.requests language, ∀ path,
      Path.resolve specifier base = .ok path → Alike (Reaches answers path) stack stack') :
    Asking.Agrees (Ready answers base stack) (Ready answers base stack')
      (program.Links fetch language) :=
  Program.agrees_link fun specifier hspecifier =>
    agrees_requests hanswers (halike specifier hspecifier)

/-- A path in the store is found before the stack is looked at, so only an entry that is not there
counts as being loaded. -/
def awaited (store : Store) (path : String) : List String :=
  match store.get? path with
  | none => [path]
  | some _ => []

theorem awaited_congr {store' : Store} {path : String}
    (h : store.get? path = none ↔ store'.get? path = none) :
    store.awaited path = store'.awaited path := by
  unfold awaited
  cases hold : store.get? path with
  | none => rw [h.1 hold]
  | some module =>
      cases hold' : store'.get? path with
      | none => cases hold.symm.trans (h.2 hold')
      | some module' => rfl

theorem alike_awaited {store' : Store} {relevant : String → Prop} {path : String}
    (h : ¬relevant path) : Alike relevant (store.awaited path) (store'.awaited path) := by
  unfold awaited
  split <;> split
  · exact .refl _
  · exact .drop_bottom h
  · exact .add_bottom h
  · exact .refl _

/-- Between two checks, nothing is being loaded. -/
structure Rested (answers : String → Except LoadError Program) (store : Store) : Prop where
  sound : store.Sound answers
  loading : store.loading = []

theorem Rested.ready (h : store.Rested answers) : Ready answers none [] store where
  sound := h.sound
  base_eq := by
    rw [h.loading]
    rfl
  alike := by
    rw [h.loading]
    exact .refl _
  absent := by simp

theorem Rested.ready_entry (h : store.Rested answers) (path : String) :
    Ready answers (some path) (store.awaited path) (store.enter path) where
  sound := h.sound.of_modules_eq rfl
  base_eq := by simp [enter]
  alike := by
    rw [enter, h.loading, awaited]
    cases hknown : store.get? path with
    | none => exact .refl _
    | some module =>
        refine .drop_bottom fun hnew => ?_
        cases hknown.symm.trans hnew
  absent := by
    unfold awaited
    cases hknown : store.get? path with
    | none => exact fun p hp => List.mem_singleton.1 hp ▸ hknown
    | some module => simp

/-- Puts the entry of a check into the graph, when its modules have been loaded. -/
def recordEntry (store : Store) (path : String) (program : Program) : Store :=
  let after := store.leave.record path program
  { after with graph := after.graph.setEntry path }

end Store

namespace Session

open Store

variable {fetch : Fetch} {settings : Settings} {entry : String} {program : Program}
  {store after : Store} {analysis : Analysis}

/-! ### Checks as a relation -/

/-- A check with the settings for its entry, on a store that earlier checks have left. -/
inductive Checks (fetch : Fetch) (settings : Settings) (entry : String) (program : Program)
    (store : Store) : Analysis → Store → Prop
  | unresolved {cause : LoadError} {linked : Linked} {after : Store}
      (hentry : store.resolve entry = .error cause)
      (hlinks : program.Links fetch settings.language store (linked, after)) :
      Checks fetch settings entry program store (linked.analyze settings) after
  | resolved {path : String} {linked : Linked} {after : Store}
      (hentry : store.resolve entry = .ok path)
      (hlinks : program.Links fetch settings.language (store.enter path) (linked, after)) :
      Checks fetch settings entry program store (linked.analyze settings)
        (after.recordEntry path program)

theorem checks_iff {session : Session} :
    Checks session.source.fetch (session.settingsFor entry) entry program session.store analysis
        after ↔
      session.check entry program = (analysis, { session with store := after }) := by
  unfold check
  constructor
  · intro h
    cases h with
    | unresolved hentry hlinks => simp only [hentry, Program.links_iff.1 hlinks]
    | resolved hentry hlinks =>
        simp only [hentry, Program.links_iff.1 hlinks]
        rfl
  · intro h
    cases hentry : session.store.resolve entry with
    | error cause =>
        simp only [hentry] at h
        cases h
        exact .unresolved hentry (Program.links_iff.2 rfl)
    | ok path =>
        simp only [hentry] at h
        cases h
        exact .resolved hentry (Program.links_iff.2 rfl)

/-- The store of a session after any number of checks. -/
def Checked (fetch : Fetch) : Store → Prop :=
  Relation.ReflTransGen (fun store after => ∃ settings entry program analysis,
    Checks fetch settings entry program store analysis after) {}

/-- The session after checks that were made one after the other. -/
def afterChecks (session : Session) (history : List (String × Program)) : Session :=
  history.foldl (fun session check => (session.check check.1 check.2).2) session

theorem check_snd (session : Session) (entry : String) (program : Program) :
    (session.check entry program).2 =
      { session with store := (session.check entry program).2.store } := by
  unfold check
  split <;> rfl

theorem checks_check (session : Session) (entry : String) (program : Program) :
    Checks session.source.fetch (session.settingsFor entry) entry program session.store
      (session.check entry program).1 (session.check entry program).2.store :=
  checks_iff.2 (Prod.ext rfl (session.check_snd entry program))

/-- Earlier checks change nothing but the store. -/
theorem afterChecks_eq (session : Session) (history : List (String × Program))
    (hstore : Checked session.source.fetch session.store) :
    ∃ store, session.afterChecks history = { session with store } ∧
      Checked session.source.fetch store := by
  induction history generalizing session with
  | nil => exact ⟨session.store, rfl, hstore⟩
  | cons first history ih =>
      have hsnd := session.check_snd first.1 first.2
      have hchecked : Checked session.source.fetch (session.check first.1 first.2).2.store :=
        hstore.tail ⟨_, _, _, _, session.checks_check first.1 first.2⟩
      have hrest := ih (session.check first.1 first.2).2
      rw [hsnd] at hrest
      obtain ⟨store, heq, hafter⟩ := hrest hchecked
      refine ⟨store, ?_, hafter⟩
      rw [← heq, ← hsnd]
      rfl

/-! ### Programs that import one module -/

/-- The specifier names a path that is not in the store, and nothing is found there. -/
structure Misses (fetch : Fetch) (store : Store) (specifier : String) : Prop where
  resolve_eq : store.resolve specifier = .ok specifier
  new : store.get? specifier = none
  idle : specifier ∉ store.loading
  fetch_eq : ∀ asked, fetch asked specifier = .error (.notFound specifier)

theorem Misses.requests {specifier : String} (h : Misses fetch store specifier) :
    Requests fetch specifier store (.error (.notFound specifier)) (store.ask specifier) :=
  .resolved h.resolve_eq (.refused h.new h.idle (h.fetch_eq _))

theorem Misses.ask {specifier : String} (h : Misses fetch store specifier) (path : String) :
    Misses fetch (store.ask path) specifier :=
  ⟨h.resolve_eq, h.new, h.idle, h.fetch_eq⟩

/-- A program with one import, where no module of the prelude is found. -/
theorem links_importing {language : Language} {specifier : String}
    {answer : Except LoadError Module} (hprelude : ∀ path ∈ language.prelude, Misses fetch store path)
    (hanswer : Requests fetch specifier { store with asked := store.asked ++ language.prelude } answer
      after) :
    (importing [specifier]).Links fetch language store
      ({ prelude := language.prelude.map fun path => (path, .error (.notFound path))
         items := [.load { span := {}, path := specifier } answer] }, after) := by
  refine ⟨_, _, ?_, _, _, ⟨_, _, ⟨_, _, hanswer, rfl⟩, rfl⟩, rfl⟩
  clear hanswer
  generalize language.prelude = paths at hprelude
  induction paths generalizing store with
  | nil => simp [Pure.pure]
  | cons path paths ih =>
      rw [List.mapM_cons]
      have hfirst := hprelude path List.mem_cons_self
      have hrest := ih fun other hother =>
        (hprelude other (List.mem_cons_of_mem _ hother)).ask path
      refine ⟨_, _, ⟨_, _, hfirst.requests, rfl⟩, _, _, hrest, ?_⟩
      simp [Pure.pure, Store.ask]

/-- A session checks such a program. Its specifiers are paths already. -/
theorem check_importing (session : Session) (entry specifier : String)
    {programs : List (String × Program)} {answer : Except LoadError Module}
    (hsource : session.source = Source.ofLists programs [])
    (hpaths : session.store.resolve entry = .ok entry ∧
      (session.store.enter entry).resolve specifier = .ok specifier)
    (hprelude : ∀ path ∈ (session.settingsFor entry).language.prelude,
      (session.store.enter entry).resolve path = .ok path ∧ session.store.get? path = none ∧
        path ∉ (session.store.enter entry).loading ∧ programs.reverse.lookup path = none)
    (hload : Loads session.source.fetch (session.store.enter entry).loading specifier
      { session.store.enter entry with
        asked := session.store.asked ++ (session.settingsFor entry).language.prelude } answer after) :
    session.check entry (importing [specifier]) =
      (Linked.analyze
        { prelude := (session.settingsFor entry).language.prelude.map fun path =>
            (path, .error (.notFound path))
          items := [.load { span := {}, path := specifier } answer] } (session.settingsFor entry),
      { session with store := after.recordEntry entry (importing [specifier]) }) := by
  refine checks_iff.1 (.resolved hpaths.1 (links_importing ?_ (.resolved hpaths.2 hload)))
  intro path hpath
  obtain ⟨hresolve, hnew, hidle, hlookup⟩ := hprelude path hpath
  refine ⟨hresolve, hnew, hidle, fun _ => ?_⟩
  rw [hsource]
  simp [Source.ofLists, Source.answer, hlookup]

/-- The store after a check of `main`, which imports `lib`. -/
def stocked : Store :=
  let requested : Store := { loading := ["main"], asked := Language.razorForge.prelude ++ ["lib"] }
  (requested.keep ⟨"lib", importing []⟩).recordEntry "main" (importing ["lib"])

theorem afterChecks_main {programs : List (String × Program)}
    (hlib : programs.reverse.lookup "lib" = some (importing []))
    (hprelude : ∀ path ∈ Language.razorForge.prelude, programs.reverse.lookup path = none) :
    ({ source := Source.ofLists programs [] } : Session).afterChecks [("main", importing ["lib"])] =
      { source := Source.ofLists programs [], store := stocked } := by
  have hpaths : ({} : Store).resolve "main" = .ok "main" ∧
      (({} : Store).enter "main").resolve "lib" = .ok "lib" := by decide +kernel
  have hplain : ∀ path ∈ Language.razorForge.prelude,
      (({} : Store).enter "main").resolve path = .ok path ∧ path ∉ ["main"] := by decide +kernel
  have hanswer : Source.answer programs [] "lib" = .ok (importing []) := by
    simp [Source.answer, hlib]
  have hidle : "lib" ∉ (({} : Store).enter "main").loading := by decide
  have hcheck := check_importing { source := Source.ofLists programs [] } "main" "lib" rfl hpaths
    (fun path hpath => ⟨(hplain path hpath).1, rfl, (hplain path hpath).2, hprelude path hpath⟩)
    (.loaded rfl hidle hanswer .nil)
  exact congrArg Prod.snd hcheck

/-! ### Checks after other checks -/

theorem Checks.rested (h : Checks fetch settings entry program store analysis after)
    {answers : String → Except LoadError Program}
    (hanswers : ∀ asked path, fetch asked path = answers path) (hstore : store.Rested answers) :
    after.Rested answers := by
  have hagrees : ∀ base stack, Asking.Agrees (Ready answers base stack) (Ready answers base stack)
      (program.Links fetch settings.language) :=
    fun _ _ => agrees_links hanswers fun _ _ _ _ => .refl _
  cases h with
  | unresolved _ hlinks =>
      have hready := (hagrees _ _ _ _ _ _ hstore.ready hstore.ready hlinks).1
      exact ⟨hready.sound, List.getLast?_eq_none_iff.1 hready.base_eq⟩
  | @resolved path _ _ _ hlinks =>
      have hentry := hstore.ready_entry path
      have hready := (hagrees _ _ _ _ _ _ hentry hentry hlinks).1
      have hloading := (Program.requesting_links _ _ _ hlinks).loading_eq
      refine ⟨hready.sound.of_modules_eq rfl, ?_⟩
      show List.dropLast _ = _
      rw [hloading, enter, List.dropLast_concat, hstore.loading]

theorem Checked.rested (h : Checked fetch store) {answers : String → Except LoadError Program}
    (hanswers : ∀ asked path, fetch asked path = answers path) : store.Rested answers := by
  induction h with
  | refl => exact ⟨sound_of_modules_eq_nil rfl, rfl⟩
  | tail _ hstep ih =>
      obtain ⟨_, _, _, _, hchecks⟩ := hstep
      exact hchecks.rested hanswers ih

/-- Whether the entry is in the store makes no difference between the two stores: it is in both or in
none of them, or nothing that the program requests leads to it. -/
def Unaffected (fetch : Fetch) (language : Language) (entry : String) (program : Program)
    (store store' : Store) : Prop :=
  ∀ path, Path.resolve entry none = .ok path →
    (store.get? path = none ↔ store'.get? path = none) ∨
    ∀ specifier ∈ program.requests language, ∀ target,
      Path.resolve specifier (some path) = .ok target → ¬Reaches (fetch []) target path

theorem Unaffected.symm {language : Language} {store' : Store}
    (h : Unaffected fetch language entry program store store') :
    Unaffected fetch language entry program store' store :=
  fun path hpath => (h path hpath).imp_left Iff.symm

theorem Checks.transfer {store' : Store}
    (hchecks : Checks fetch settings entry program store analysis after)
    (hanswers : ∀ asked path, fetch asked path = fetch [] path)
    (hstore : store.Rested (fetch [])) (hstore' : store'.Rested (fetch []))
    (hunaffected : Unaffected fetch settings.language entry program store store') :
    ∃ after', Checks fetch settings entry program store' analysis after' := by
  have hresolve : store'.resolve entry = store.resolve entry :=
    resolve_congr (by rw [hstore.loading, hstore'.loading]) entry
  cases hchecks with
  | unresolved hentry hlinks =>
      have hagrees : Asking.Agrees (Ready (fetch []) none []) (Ready (fetch []) none [])
          (program.Links fetch settings.language) :=
        agrees_links hanswers fun _ _ _ _ => .refl _
      obtain ⟨-, after', hlinks', -⟩ := hagrees _ _ _ _ hstore.ready hstore'.ready hlinks
      exact ⟨after', .unresolved (hresolve.trans hentry) hlinks'⟩
  | @resolved path _ _ hentry hlinks =>
      have hpath : Path.resolve entry none = .ok path := by
        simpa [hstore.loading] using resolve_eq_ok_iff.1 hentry
      have halike : ∀ specifier ∈ program.requests settings.language, ∀ target,
          Path.resolve specifier (some path) = .ok target →
          Alike (Reaches (fetch []) target) (store.awaited path) (store'.awaited path) := by
        intro specifier hspecifier target htarget
        rcases hunaffected path hpath with hboth | hnot
        · rw [awaited_congr hboth]
          exact .refl _
        · exact alike_awaited (hnot specifier hspecifier target htarget)
      obtain ⟨-, after', hlinks', -⟩ :=
        agrees_links hanswers halike _ _ _ _ (hstore.ready_entry path) (hstore'.ready_entry path) hlinks
      exact ⟨_, .resolved (hresolve.trans hentry) hlinks'⟩

/-- From a steady source, a check has the same outcome after any two histories of a session, and after
any history the same as in a new session, unless its entry is in one of the stores only and a request
leads to it. -/
theorem check_regardless_of_history (hsteady : Steady fetch) :
    (∀ store store', Checked fetch store → Checked fetch store' → ∀ settings entry program,
      Unaffected fetch settings.language entry program store store' →
        ∀ analysis, (∃ after, Checks fetch settings entry program store analysis after) ↔
          ∃ after, Checks fetch settings entry program store' analysis after) ∧
    ∀ fresh : Session, fresh.source.fetch = fetch → fresh.store = {} → ∀ history entry program,
      Unaffected fetch (fresh.settingsFor entry).language entry program
          (fresh.afterChecks history).store {} →
        ((fresh.afterChecks history).check entry program).1 = (fresh.check entry program).1 := by
  have hanswers : ∀ asked path, fetch asked path = fetch [] path :=
    fun asked path => hsteady asked [] path
  refine ⟨?_, ?_⟩
  · intro store store' hstore hstore' settings entry program hunaffected analysis
    have hrested := hstore.rested hanswers
    have hrested' := hstore'.rested hanswers
    constructor
    · rintro ⟨after, hchecks⟩
      exact hchecks.transfer hanswers hrested hrested' hunaffected
    · rintro ⟨after, hchecks⟩
      exact hchecks.transfer hanswers hrested' hrested hunaffected.symm
  · rintro fresh rfl hfresh history entry program hunaffected
    have hempty : Checked fresh.source.fetch fresh.store := by
      rw [hfresh]
      exact .refl
    obtain ⟨store, hafter, hstore⟩ := fresh.afterChecks_eq history hempty
    rw [hafter] at hunaffected ⊢
    have hchecks := checks_check { fresh with store } entry program
    obtain ⟨after, hagain⟩ := hchecks.transfer hanswers (hstore.rested hanswers)
      (hempty.rested hanswers) (hfresh ▸ hunaffected)
    have hcheck : fresh.check entry program =
        (({ fresh with store } : Session).check entry program |>.1, { fresh with store := after }) :=
      checks_iff.1 hagain
    rw [hcheck]

/-- The path `lib` has been loaded as a module; then another program is checked there, and nothing that
it requests leads back. -/
theorem check_regardless_of_history_reloaded :
    let source := Source.ofLists [("lib", importing []), ("other", importing [])] []
    let fresh : Session := { source }
    let later := fresh.afterChecks [("main", importing ["lib"])]
    later.store.get? "lib" = some ⟨"lib", importing []⟩ ∧ Checked source.fetch later.store ∧
      Unaffected source.fetch .razorForge "lib" (importing ["other"]) later.store {} ∧
      (∀ analysis,
        (∃ after, Checks source.fetch {} "lib" (importing ["other"]) later.store analysis after) ↔
          ∃ after, Checks source.fetch {} "lib" (importing ["other"]) {} analysis after) ∧
      (later.check "lib" (importing ["other"])).1 = (fresh.check "lib" (importing ["other"])).1 ∧
      (later.check "lib" (importing ["other"])).1.modules.map (·.path) = ["other"] := by
  intro source fresh later
  have hchecked : Checked source.fetch later.store := by
    obtain ⟨store, hlater, hstore⟩ := fresh.afterChecks_eq [("main", importing ["lib"])] .refl
    rw [show later = _ from hlater]
    exact hstore
  have hrequests : ∀ specifier ∈ (importing ["other"]).requests .razorForge,
      specifier = "core/Maybe" ∨ specifier = "core/Result" ∨ specifier = "core/Lookup" ∨
        specifier = "other" := by
    intro specifier hspecifier
    have hmem : specifier ∈ ["core/Maybe", "core/Result", "core/Lookup", "other"] := hspecifier
    simpa using hmem
  have hresolve : ∀ specifier ∈ (importing ["other"]).requests .razorForge,
      Path.resolve specifier (some "lib") = .ok specifier := by
    intro specifier hspecifier
    rcases hrequests specifier hspecifier with rfl | rfl | rfl | rfl <;> decide +kernel
  have himports : ∀ specifier ∈ (importing ["other"]).requests .razorForge,
      ∀ dependency, ¬Imports (source.fetch []) specifier dependency := by
    rintro specifier hspecifier dependency ⟨program, hanswer, hdep⟩
    rcases hrequests specifier hspecifier with rfl | rfl | rfl | rfl <;> cases hanswer
    cases hdep
  have hunaffected : Unaffected source.fetch .razorForge "lib" (importing ["other"]) later.store {} := by
    intro path hpath
    have hlib : Path.resolve "lib" none = .ok "lib" := by decide +kernel
    cases hlib.symm.trans hpath
    refine .inr fun specifier hspecifier target htarget hreaches => ?_
    cases (hresolve specifier hspecifier).symm.trans htarget
    rcases Relation.ReflTransGen.cases_head hreaches with rfl | ⟨dependency, himport, -⟩
    · exact absurd hspecifier (by decide)
    · exact himports specifier hspecifier dependency himport
  have hsteady : Steady source.fetch := fun _ _ _ => rfl
  obtain ⟨hstores, hsessions⟩ := check_regardless_of_history hsteady
  have hsame := hsessions fresh rfl rfl [("main", importing ["lib"])] "lib" (importing ["other"])
    hunaffected
  have hlater : later = { fresh with store := stocked } := afterChecks_main rfl (by decide +kernel)
  have hfresh := check_importing fresh "lib" "other" rfl (by decide +kernel) (by decide +kernel)
    (.loaded rfl (by decide) rfl .nil)
  refine ⟨?_, hchecked, hunaffected, hstores _ _ hchecked .refl {} "lib" _ hunaffected, hsame, ?_⟩
  · rw [hlater]
    rfl
  · rw [hsame, hfresh]
    rfl

/-- In a new session the module `helper`, which imports the entry, cannot be loaded. After a check that
has loaded the path of the entry as a module, it can. -/
theorem check_after_loading_entry :
    let source := Source.ofLists [("lib", importing []), ("helper", importing ["lib"])] []
    let fresh : Session := { source }
    let later := fresh.afterChecks [("main", importing ["lib"])]
    let analysis := (fresh.check "lib" (importing ["helper"])).1
    let analysis' := (later.check "lib" (importing ["helper"])).1
    analysis.diagnostics =
        [⟨.moduleNotLoaded "helper" (.circular ["lib", "helper", "lib"]), {}⟩] ∧
      analysis.modules.map (·.path) = [] ∧
      analysis'.diagnostics = [] ∧ analysis'.modules.map (·.path) = ["helper"] := by
  intro source fresh later analysis analysis'
  have hdeps : (importing ["lib"]).dependencies "helper" = ["lib"] := by decide +kernel
  have hblocked : ∀ store : Store, store.modules = [] →
      Loads source.fetch ["lib"] "helper" store (.error (.circular ["lib", "helper", "lib"]))
        (store.ask "helper") := by
    intro store hempty
    refine .blocked (by simp [get?, hempty]) (by decide) rfl ?_
    rw [hdeps]
    exact .failed (.circular (by simp [get?, ask, hempty]) (by decide))
  have hloaded : ∀ store : Store, store.modules = stocked.modules →
      Loads source.fetch ["lib"] "helper" store (.ok ⟨"helper", importing ["lib"]⟩)
        ((store.ask "helper").keep ⟨"helper", importing ["lib"]⟩) := by
    intro store hstocked
    refine .loaded (by rw [get?, hstocked]; rfl) (by decide) rfl ?_
    rw [hdeps]
    exact .cons (.known (by rw [get?, ask, hstocked]; rfl)) .nil
  have hfresh := check_importing fresh "lib" "helper" rfl (by decide +kernel) (by decide +kernel)
    (hblocked _ rfl)
  have hstocked := check_importing { fresh with store := stocked } "lib" "helper" rfl
    (by decide +kernel) (by decide +kernel) (hloaded _ rfl)
  have hlater : later = { fresh with store := stocked } := afterChecks_main rfl (by decide +kernel)
  simp only [analysis, analysis', hfresh, hlater, hstocked]
  exact ⟨rfl, rfl, rfl, rfl⟩

end Session

end Custody
