import Custody.Proofs.Check.Kept

/-! Invariants of states under checks. A check maintains an invariant if it leaves it true whichever
way it ends, also once what has cut it short is reported, and where it has a value, something may be
said of the value. What an invariant of a check is made of follows its steps; of a check that adds
nothing to the table it is enough to know what it keeps. -/

namespace Custody.Check

/-- The property stays true when this is reported. -/
def Reportable (P : State → Prop) (diagnostic : Diagnostic) : Prop :=
  ∀ s, P s → P (s.report diagnostic)

/-- Started in a state with `P`, the check leaves such a state, its value has the property `Q`, and
what cuts it short can be reported. -/
structure Maintains {α : Type} (env : Env) (P : State → Prop) (Q : α → Prop) (check : Check α) :
    Prop where
  left : ∀ {s}, P s → P (check env s).2
  value : ∀ {s a}, P s → (check env s).1 = .ok a → Q a
  cut : ∀ {s diagnostic}, P s → (check env s).1 = .error diagnostic →
    P ((check env s).2.report diagnostic)

/-- The value is found whatever the state is, and nothing is said of it. -/
abbrev Leaves {α : Type} (env : Env) (P : State → Prop) (check : Check α) : Prop :=
  Maintains env P (fun _ => True) check

namespace Maintains

variable {α β : Type} {env : Env} {P inside : State → Prop} {Q Q' : α → Prop} {R : β → Prop}

theorem after {check : Check α} {result : Except Diagnostic α} {s t : State}
    (h : Maintains env P Q check) (hs : P s) (hrun : check env s = (result, t)) : P t := by
  have ht := h.left hs
  rw [hrun] at ht
  exact ht

theorem found {check : Check α} {a : α} {s t : State} (h : Maintains env P Q check) (hs : P s)
    (hrun : check env s = (.ok a, t)) : Q a :=
  h.value hs (by rw [hrun])

theorem mono {check : Check α} (h : Maintains env P Q check) (hQ : ∀ a, Q a → Q' a) :
    Maintains env P Q' check :=
  ⟨h.left, fun hs ha => hQ _ (h.value hs ha), h.cut⟩

/-- A check that is never cut short. -/
theorem of_ok {check : Check α}
    (h : ∀ s, P s → ∃ a, (check env s).1 = .ok a ∧ Q a ∧ P (check env s).2) :
    Maintains env P Q check := by
  constructor
  · intro s hs
    obtain ⟨a, -, -, hleft⟩ := h s hs
    exact hleft
  · intro s b hs hb
    obtain ⟨a, ha, hvalue, -⟩ := h s hs
    cases ha.symm.trans hb
    exact hvalue
  · intro s d hs hd
    obtain ⟨a, ha, -, -⟩ := h s hs
    cases ha.symm.trans hd

theorem pure {a : α} (h : Q a) : Maintains env P Q (Pure.pure a) :=
  of_ok fun _ hs => ⟨a, rfl, h, hs⟩

theorem bind {check : Check α} {next : α → Check β} (h : Maintains env P Q check)
    (hnext : ∀ a, Q a → Maintains env P R (next a)) : Maintains env P R (check >>= next) := by
  constructor
  · intro s hs
    rcases bind_cases check next env s with ⟨a, ha, hrun⟩ | ⟨d, -, hrun⟩
    · rw [hrun]
      exact (hnext a (h.value hs ha)).left (h.left hs)
    · rw [hrun]
      exact h.left hs
  · intro s b hs hb
    rcases bind_cases check next env s with ⟨a, ha, hrun⟩ | ⟨d, -, hrun⟩
    · rw [hrun] at hb
      exact (hnext a (h.value hs ha)).value (h.left hs) hb
    · rw [hrun] at hb
      cases hb
  · intro s d hs hd
    rcases bind_cases check next env s with ⟨a, ha, hrun⟩ | ⟨found, hfound, hrun⟩
    · rw [hrun] at hd ⊢
      exact (hnext a (h.value hs ha)).cut (h.left hs) hd
    · rw [hrun] at hd ⊢
      cases hd
      exact h.cut hs hfound

/-- The rest does not depend on the value of the first part. -/
theorem seq {check : Check α} {next : α → Check β} (h : Maintains env P Q check)
    (hnext : ∀ a, Maintains env P R (next a)) : Maintains env P R (check >>= next) :=
  h.bind fun a _ => hnext a

theorem map {check : Check α} {f : α → β} (h : Maintains env P Q check)
    (hf : ∀ a, Q a → R (f a)) : Maintains env P R (f <$> check) := by
  rw [← bind_pure_comp]
  exact h.bind fun a ha => pure (hf a ha)

theorem state : Maintains env P P Check.state :=
  of_ok fun s hs => ⟨s, rfl, hs, hs⟩

theorem surroundings {next : Env → Check β} (h : Maintains env P R (next env)) :
    Maintains env P R (Check.env >>= next) :=
  ⟨h.left, h.value, h.cut⟩

theorem language {next : Language → Check β} (h : Maintains env P R (next env.language)) :
    Maintains env P R (Check.language >>= next) :=
  ⟨h.left, h.value, h.cut⟩

theorem depth {next : Nat → Check β} (h : ∀ depth, Maintains env P R (next depth)) :
    Maintains env P R (Check.depth >>= next) :=
  ⟨(h _).left, (h _).value, (h _).cut⟩

theorem modify {f : State → State} (h : ∀ s, P s → P (f s)) : Leaves env P (Check.modify f) :=
  of_ok fun s hs => ⟨(), rfl, trivial, h s hs⟩

theorem rule {f : State → Except Diagnostic α} (hvalue : ∀ s a, P s → f s = .ok a → Q a)
    (hcut : ∀ s d, f s = .error d → Reportable P d) : Maintains env P Q (Check.rule f) where
  left hs := hs
  value hs ha := hvalue _ _ hs ha
  cut hs hd := hcut _ _ hd _ hs

theorem fail {fault : Fault} {span : Span} (h : Reportable P ⟨fault, span⟩) :
    Maintains env P Q (Check.fail fault span) where
  left hs := hs
  value _ ha := by cases ha
  cut hs hd := by
    cases hd
    exact h _ hs

theorem judge {verdict : Except Fault α} {span : Span} (hvalue : ∀ a, verdict = .ok a → Q a)
    (hcut : ∀ fault, verdict = .error fault → Reportable P ⟨fault, span⟩) :
    Maintains env P Q (Check.judge verdict span) := by
  cases verdict with
  | ok a => exact pure (hvalue a rfl)
  | error fault => exact fail (hcut fault rfl)

theorem report {fault : Fault} {span : Span} (h : Reportable P ⟨fault, span⟩) :
    Leaves env P (Check.report fault span) :=
  modify h

theorem require {condition : Bool} {fault : Fault} {span : Span}
    (h : condition = false → Reportable P ⟨fault, span⟩) :
    Leaves env P (Check.require condition fault span) := by
  cases condition with
  | true => exact pure trivial
  | false => exact report (h rfl)

theorem attempt {check : Check α} (h : Maintains env P Q check) :
    Maintains env P (fun found => ∀ a, found = some a → Q a) (Check.attempt check) := by
  refine of_ok fun s hs => ?_
  rcases attempt_cases check env s with ⟨a, ha, hrun⟩ | ⟨d, hd, hrun⟩
  · refine ⟨some a, by rw [hrun], fun b hb => ?_, ?_⟩
    · cases hb
      exact h.value hs ha
    · rw [hrun]
      exact h.left hs
  · refine ⟨none, by rw [hrun], ?_, ?_⟩
    · intro b hb
      cases hb
    · rw [hrun]
      exact h.cut hs hd

theorem reporting {check : Check Unit} {Q : Unit → Prop} (h : Maintains env P Q check) :
    Leaves env P (Check.reporting check) :=
  h.attempt.seq fun _ => pure trivial

/-- Inside, another property may be the one that is maintained. -/
theorem bracket {before : State → State} {after : State → State → State} {check : Check α}
    (h : Maintains env inside Q check) (hbefore : ∀ s, P s → inside (before s))
    (hafter : ∀ s t, P s → inside t → P (after (before s) t))
    (hcut : ∀ s t d, P s → inside t → inside (t.report d) → P ((after (before s) t).report d)) :
    Maintains env P Q (Check.bracket before after check) where
  left hs := hafter _ _ hs (h.left (hbefore _ hs))
  value hs ha := h.value (hbefore _ hs) ha
  cut hs hd := hcut _ _ _ hs (h.left (hbefore _ hs)) (h.cut (hbefore _ hs) hd)

/-- The value of a check in a scope of its own. -/
theorem withScope {check : Check α} (h : Maintains env P Q check)
    (hopen : ∀ s, P s → P s.openScope) (hleft : Leaves env P (Check.withScope check)) :
    Maintains env P Q (Check.withScope check) where
  left hs := hleft.left hs
  value hs ha := h.value (hopen _ hs) ha
  cut hs hd := hleft.cut hs hd

end Maintains

/-! ### Declarations -/

section

variable {env : Env} {P : State → Prop}

theorem declare_leaves {symbol : Symbol}
    (hsymbol : ∀ {s key table}, P s → s.table.declare symbol = .ok (key, table) →
      P { s with table })
    (hreport : Reportable P ⟨.ofScope (.duplicate symbol.name), symbol.span⟩) :
    Leaves env P (declare symbol) where
  left {s} hs := by
    unfold declare
    split
    · rename_i hdeclare
      exact hsymbol hs hdeclare
    · exact hs
  value _ _ := trivial
  cut {s d} hs hd := by
    unfold declare at hd ⊢
    split at hd
    · cases hd
    · rename_i hdeclare
      obtain rfl := Table.declare_error hdeclare
      cases hd
      exact hreport s hs

theorem declareParams_leaves {params : List (Param × Ty)}
    (hparams : ∀ param ∈ params,
      Leaves env P (declare (Symbol.var param.1.name.name param.2 false param.1.name.span))) :
    Leaves env P (declareParams params) := by
  induction params with
  | nil => exact .pure trivial
  | cons param params ih =>
      obtain ⟨hparam, hrest⟩ := List.forall_mem_cons.1 hparams
      exact hparam.reporting.seq fun _ => ih hrest

theorem declareTypeParams_leaves {params : List Ident}
    (hparams : ∀ param ∈ params,
      Leaves env P (declare (Symbol.basic param.name (.param param.name) param.span))) :
    Leaves env P (declareTypeParams params) := by
  induction params with
  | nil => exact .pure trivial
  | cons param params ih =>
      obtain ⟨hparam, hrest⟩ := List.forall_mem_cons.1 hparams
      exact hparam.reporting.seq fun _ => ih hrest

/-! ### Programs -/

theorem declarePrelude_leaves {symbols : List Symbol}
    (hsymbols : ∀ symbol ∈ symbols, Leaves env P (declare symbol)) :
    Leaves env P (declarePrelude symbols) := by
  induction symbols with
  | nil => exact .pure trivial
  | cons symbol symbols ih =>
      obtain ⟨hsymbol, hrest⟩ := List.forall_mem_cons.1 hsymbols
      refine (Maintains.modify fun s hs => ?_).seq fun _ => ih hrest
      have hleft := hsymbol.left hs
      unfold declare at hleft
      split
      · rename_i hdeclare
        rw [hdeclare] at hleft
        exact hleft
      · exact hs

theorem declareImports_leaves {span : Span} {symbols : List Symbol}
    (hsymbols : ∀ symbol ∈ symbols, Leaves env P (declare symbol))
    (hreport : ∀ name, Reportable P ⟨.ofScope (.duplicate name), span⟩) :
    Leaves env P (declareImports span symbols) := by
  induction symbols with
  | nil => exact .pure trivial
  | cons symbol symbols ih =>
      obtain ⟨hsymbol, hrest⟩ := List.forall_mem_cons.1 hsymbols
      refine (Maintains.modify fun s hs => ?_).seq fun _ => ih hrest
      have hleft := hsymbol.left hs
      unfold declare at hleft
      split
      · rename_i hdeclare
        rw [hdeclare] at hleft
        exact hleft
      · rename_i hdeclare
        obtain rfl := Table.declare_error hdeclare
        exact hreport _ s hs

/-- What an import can do leaves the property true: it declares the exports of a module or the
module, or an ordinary fault is reported. -/
structure Importing (env : Env) (P : State → Prop) : Prop where
  exported : ∀ decl : Decl, Leaves env P (declare (decl.symbol env.language))
  module : ∀ name path span, Leaves env P (declare (Symbol.module name path span))
  report : ∀ {fault span}, fault.Ordinary → Reportable P ⟨fault, span⟩

theorem Importing.exports (h : Importing env P) (loaded : Module) :
    ∀ symbol ∈ loaded.exports env.language, Leaves env P (declare symbol) :=
  List.forall_mem_map.2 fun decl _ => h.exported decl

theorem loadPrelude_leaves (h : Importing env P) (tolerant : Bool)
    (prelude : List (String × Except LoadError Module)) :
    Leaves env P (loadPrelude tolerant prelude) := by
  induction prelude with
  | nil => exact .pure trivial
  | cons entry prelude ih =>
      rcases entry with ⟨path, cause | loaded⟩
      · have hrequire : Leaves env P (require tolerant (.moduleNotLoaded path cause) {}) :=
          .require fun _ => h.report ⟨rfl, rfl, rfl⟩
        exact .language (hrequire.seq fun _ => ih)
      · exact .language ((declarePrelude_leaves (h.exports loaded)).seq fun _ => ih)

theorem checkImport_leaves (h : Importing env P) (request : Import)
    (answer : Except LoadError Module) : Leaves env P (checkImport request answer) := by
  unfold checkImport
  split
  · exact .fail (h.report ⟨rfl, rfl, rfl⟩)
  · split
    · exact h.module _ _ _
    · exact .language (declareImports_leaves (h.exports _) fun _ => h.report ⟨rfl, rfl, rfl⟩)

theorem checkItem_leaves (h : Importing env P) (hdecl : ∀ decl, Leaves env P (checkDecl decl))
    (item : LinkedItem) : Leaves env P (checkItem item) := by
  cases item with
  | decl decl => exact hdecl decl
  | load request answer => exact checkImport_leaves h request answer

theorem checkItems_leaves (hitem : ∀ item, Leaves env P (checkItem item))
    (items : List LinkedItem) : Leaves env P (checkItems items) := by
  induction items with
  | nil => exact .pure trivial
  | cons item items ih => exact (hitem item).reporting.seq fun _ => ih

end

end Custody.Check
