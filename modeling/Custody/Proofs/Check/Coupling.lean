import Custody.Proofs.Check.Frame
import Custody.Proofs.Program.Reading
import Custody.Proofs.Scope.Matched

/-! Two runs of a check side by side. They may differ in what has been reported before, in the modules
that are loaded, in the language, and in the parentheses of the expressions they read; and their tables
may differ as long as the rules find the same in them. Both runs report the same, and leave states that
stand to each other as those they started in. Where the languages differ there are two exceptions: the
right language reports in addition what it does not support, and nothing is said any more once the left
one has reported the use of a moved value. -/

namespace Custody

/-! ### Places -/

namespace Reading

/-- The same fault, at a place that the reading allows for. -/
structure Matches (reading : Reading) (left right : Diagnostic) : Prop where
  fault : right.fault = left.fault
  place : reading.Places left.span right.span

theorem matches_refl (reading : Reading) (diagnostic : Diagnostic) :
    reading.Matches diagnostic diagnostic :=
  ⟨rfl, reading.places_refl diagnostic.span⟩

theorem faults_eq {reading : Reading} {left right : List Diagnostic}
    (h : List.Forall₂ reading.Matches left right) :
    right.map (·.fault) = left.map (·.fault) := by
  induction h with
  | nil => rfl
  | cons hmatch _ ih => rw [List.map_cons, List.map_cons, hmatch.fault, ih]

theorem Matches.eq_of_written {left right : Diagnostic} (h : written.Matches left right) :
    right = left := by
  have hplace : left.span = right.span := h.place
  calc right = ⟨right.fault, right.span⟩ := rfl
    _ = ⟨left.fault, left.span⟩ := by rw [h.fault, hplace]
    _ = left := rfl

theorem reports_eq_of_written {left right : List Diagnostic}
    (h : List.Forall₂ written.Matches left right) : right = left := by
  induction h with
  | nil => rfl
  | cons hmatch _ ih => rw [hmatch.eq_of_written, ih]

end Reading

/-! ### Pairs of runs -/

/-- The surroundings of two runs, how the right one reads expressions, and what has been reported
before they start. Either the languages are the same, or values move in the left one only. -/
structure Pairing where
  left : Env
  right : Env
  languages : left.language = right.language ∨
    left.language = .razorForge ∧ right.language = .suflae
  reading : Reading := .written
  leftBefore : List Diagnostic := []
  rightBefore : List Diagnostic := []

namespace Pairing

/-- Two runs in one environment, after the same reports. -/
def twice (env : Env) (s : State) (reading : Reading) : Pairing where
  left := env
  right := env
  languages := .inl rfl
  reading := reading
  leftBefore := s.diagnostics
  rightBefore := s.diagnostics

variable (p : Pairing)

/-- Whether the languages differ. -/
def crosses : Bool :=
  p.left.language != p.right.language

/-- Whether both runs report this. -/
def shares (diagnostic : Diagnostic) : Bool :=
  !(p.crosses && diagnostic.fault.isUnsupported)

/-- Both runs find the same members in the module at the path. -/
def Knows (path : String) : Prop :=
  ∀ name, p.right.member? path name = p.left.member? path name

/-- The rules treat the symbols alike, unless the one on the left has been moved. -/
structure Same (a b : Symbol) : Prop where
  similar : a.Similar b
  moved : b.isMoved = a.isMoved ∨ p.crosses = true ∧ a.isMoved = true

/-- Both runs may declare the symbol. -/
structure Suits (symbol : Symbol) : Prop where
  live : p.crosses = true → symbol.isMoved = false
  known : ∀ path, symbol.module? = some path → p.Knows path

/-- The rules find the same in the tables, except for variables that have been moved. They ask for
names that both runs see, and for what is known about a type. -/
structure Answers (Sees : String → Prop) (table table' : Table) : Prop where
  depth : table'.depth = table.depth
  find? : ∀ {name}, Sees name → Option.Rel p.Same (table.find? name) (table'.find? name)
  isReference : ∀ ty, table'.isReference ty = table.isReference ty
  memberType : ∀ {property : Ident}, Sees property.name → ∀ object,
    table'.memberType object property = table.memberType object property

variable {p}

theorem crosses_twice (env : Env) (s : State) (reading : Reading) :
    (twice env s reading).crosses = false :=
  bne_self_eq_false _

theorem right_language (h : p.crosses = false) : p.right.language = p.left.language := by
  rw [crosses, bne_eq_false_iff_eq] at h
  exact h.symm

theorem languages_of_crosses (h : p.crosses = true) :
    p.left.language = .razorForge ∧ p.right.language = .suflae := by
  refine p.languages.resolve_left fun heq => ?_
  rw [crosses, heq, bne_self_eq_false] at h
  cases h

theorem shares_of_supported {diagnostic : Diagnostic}
    (h : diagnostic.fault.isUnsupported = false) : p.shares diagnostic = true := by
  rw [shares, h, Bool.and_false, Bool.not_false]

theorem shares_of_same (h : p.crosses = false) (diagnostic : Diagnostic) :
    p.shares diagnostic = true := by
  rw [shares, h, Bool.false_and, Bool.not_false]

theorem Same.refl (a : Symbol) : p.Same a a :=
  ⟨Symbol.similar_refl a, .inl rfl⟩

theorem Same.ty_eq {a b : Symbol} (h : p.Same a b) : b.ty = a.ty := by
  obtain ⟨state, rfl⟩ := h.similar
  exact Symbol.ty_setState state a

theorem Answers.refl (Sees : String → Prop) (table : Table) : p.Answers Sees table table where
  depth := rfl
  find? _ := rel_refl .refl _
  isReference _ := rfl
  memberType _ _ := rfl

end Pairing

/-! ### Couplings -/

namespace Table

/-- The table when the value of a variable has been taken over. -/
def takenOver (language : Language) (name : String) (table : Table) : Table :=
  if language.moves then table.update name (Symbol.setState .moved) else table

/-- The table when a variable has been assigned to. -/
def revived (name : String) (table : Table) : Table :=
  if (table.find? name).any (·.isMoved) then table.update name (Symbol.setState .live) else table

end Table

/-- How the tables of two runs may stand to each other, and which names stand for the same in both. -/
structure Coupling extends Pairing where
  Sees : String → Prop
  /-- The tables of the two runs, when `opened` scopes are open above the one they started in. -/
  Joined : (opened : Nat) → Table → Table → Prop
  answers : ∀ {n table table'}, Joined n table table' → toPairing.Answers Sees table table'
  contains_eq : ∀ {n table table' name}, Joined n table table' → Sees name →
    table'.current.contains name = table.current.contains name
  knows : ∀ {n table table' name symbol path}, Joined n table table' →
    table.find? name = some symbol → symbol.module? = some path → toPairing.Knows path
  append : ∀ {n table table' symbol}, Joined n table table' → Sees symbol.name →
    toPairing.Suits symbol → Joined n (table.append symbol) (table'.append symbol)
  takenOver : ∀ {n table table' name}, Joined n table table' → Sees name →
    Joined n (table.takenOver left.language name) (table'.takenOver right.language name)
  revived : ∀ {n table table' name}, Joined n table table' → Sees name →
    Joined n (table.revived name) (table'.revived name)
  push : ∀ {n table table'}, Joined n table table' → Joined (n + 1) table.push table'.push
  pop : ∀ {n table table'}, Joined (n + 1) table table' → ∃ scope scope' popped popped',
    table.pop = .ok (scope, popped) ∧ table'.pop = .ok (scope', popped') ∧ Joined n popped popped'

namespace Coupling

variable (c : Coupling)

/-- The rules treat the states alike, except for variables that have been moved. -/
structure Alike (s t : State) : Prop where
  table : c.Answers c.Sees s.table t.table
  ledger : t.ledger = s.ledger
  modes : t.modes = s.modes
  loops : t.loops = s.loops
  result : t.result = s.result

/-- The states of the two runs. -/
structure Related (n : Nat) (s t : State) : Prop where
  table : c.Joined n s.table t.table
  ledger : t.ledger = s.ledger
  modes : t.modes = s.modes
  loops : t.loops = s.loops
  result : t.result = s.result
  reports : ∃ new new', s.diagnostics = c.leftBefore ++ new ∧ t.diagnostics = c.rightBefore ++ new' ∧
    List.Forall₂ c.reading.Matches new (new'.filter c.shares)

/-- The left run has found the use of a moved value, and the right one cannot. -/
inductive Spoiled {α : Type} : Except Diagnostic α × State → Prop
  | reported {result s diagnostic} (hcrosses : c.crosses = true) (h : diagnostic ∈ s.diagnostics)
      (hfault : diagnostic.fault.isUseAfterMove = true) : Spoiled (result, s)
  | cut {diagnostic s} (hcrosses : c.crosses = true)
      (hfault : diagnostic.fault.isUseAfterMove = true) : Spoiled (.error diagnostic, s)

/-- Both runs come to a value, or the same cuts both short. -/
inductive Ends {α : Type} (V : α → α → Prop) : Except Diagnostic α → Except Diagnostic α → Prop
  | ok {a b} (h : V a b) : Ends V (.ok a) (.ok b)
  | error {left right} (h : c.reading.Matches left right) (hshares : c.shares right = true) :
      Ends V (.error left) (.error right)

/-- From related states the two checks come to the same and to related states, or else the left one is
spoiled. What the left one has reported stays. -/
structure Couples {α : Type} (n : Nat) (V : α → α → Prop) (check check' : Check α) : Prop where
  grows : ∀ s, s.diagnostics <+: (check c.left s).2.diagnostics
  meets : ∀ {s t}, c.Related n s t → c.Spoiled (check c.left s) ∨
    c.Ends V (check c.left s).1 (check' c.right t).1 ∧
      c.Related n (check c.left s).2 (check' c.right t).2

/-- The two runs of one check are coupled. -/
abbrev Agrees {α : Type} (n : Nat) (check : Check α) : Prop :=
  c.Couples n Eq check check

variable {c}

theorem Spoiled.crosses_eq {α : Type} {outcome : Except Diagnostic α × State}
    (h : c.Spoiled outcome) : c.crosses = true := by
  cases h with
  | reported hcrosses _ _ => exact hcrosses
  | cut hcrosses _ => exact hcrosses

theorem Spoiled.keep {α : Type} {outcome : Except Diagnostic α × State} {t : State}
    (h : c.Spoiled outcome) (hgrows : outcome.2.diagnostics <+: t.diagnostics) :
    c.Spoiled (outcome.1, t) := by
  cases h with
  | reported hcrosses hmem hfault => exact .reported hcrosses (hgrows.subset hmem) hfault
  | cut hcrosses hfault => exact .cut hcrosses hfault

/-- A run that was not cut short has reported what spoils it. -/
theorem Spoiled.exists_of_ok {α : Type} {outcome : Except Diagnostic α × State} {a : α}
    (h : c.Spoiled outcome) (hok : outcome.1 = .ok a) :
    ∃ diagnostic ∈ outcome.2.diagnostics, diagnostic.fault.isUseAfterMove = true := by
  cases h with
  | reported _ hmem hfault => exact ⟨_, hmem, hfault⟩
  | cut => cases hok

theorem Ends.fault_eq {α : Type} {left right : Except Diagnostic α} (h : c.Ends Eq left right) :
    right.mapError (·.fault) = left.mapError (·.fault) := by
  cases h with
  | ok hab => rw [hab]
  | error hmatch _ => exact congrArg Except.error hmatch.fault

/-! ### States -/

namespace Alike

variable {s t : State} {name : String}

theorem refl (s : State) : c.Alike s s :=
  ⟨.refl c.Sees s.table, rfl, rfl, rfl, rfl⟩

theorem find? (h : c.Alike s t) (hname : c.Sees name) :
    Option.Rel c.Same (s.table.find? name) (t.table.find? name) :=
  h.table.find? hname

theorem find?_similar (h : c.Alike s t) (hname : c.Sees name) :
    Option.Rel Symbol.Similar (s.table.find? name) (t.table.find? name) := by
  rcases rel_cases (h.find? hname) with ⟨hleft, hright⟩ | ⟨a, b, hleft, hright, hab⟩
  · rw [hleft, hright]
    exact .none
  · rw [hleft, hright]
    exact .some hab.similar

theorem depth_eq (h : c.Alike s t) : t.depth = s.depth :=
  h.table.depth

theorem isReferenceToken_eq (h : c.Alike s t) (ty : Ty) :
    t.table.isReferenceToken ty = s.table.isReferenceToken ty := by
  unfold Table.isReferenceToken
  simp only [h.table.isReference]

theorem isMovable_eq {a b : Symbol} (h : c.Alike s t) (hab : a.Similar b) :
    t.table.isMovable b = s.table.isMovable a := by
  obtain ⟨state, rfl⟩ := hab
  simp only [Table.isMovable, Symbol.isVar_setState, Symbol.access?_setState, Symbol.ty_setState,
    h.table.isReference]

end Alike

namespace Related

variable {n : Nat} {s t : State}

theorem alike (h : c.Related n s t) : c.Alike s t :=
  ⟨c.answers h.table, h.ledger, h.modes, h.loops, h.result⟩

theorem depth_eq (h : c.Related n s t) : t.depth = s.depth :=
  h.alike.depth_eq

theorem withTable {table table' : Table} (h : c.Related n s t) (htable : c.Joined n table table') :
    c.Related n { s with table } { t with table := table' } :=
  ⟨htable, h.ledger, h.modes, h.loops, h.result, h.reports⟩

theorem report {left right : Diagnostic} (h : c.Related n s t) (hmatch : c.reading.Matches left right)
    (hshares : c.shares right = true) : c.Related n (s.report left) (t.report right) := by
  obtain ⟨new, new', hleft, hright, hmatches⟩ := h.reports
  refine ⟨h.table, h.ledger, h.modes, h.loops, h.result, new ++ [left], new' ++ [right], ?_, ?_, ?_⟩
  · rw [State.report, hleft, List.append_assoc]
  · rw [State.report, hright, List.append_assoc]
  · rw [List.filter_append, List.filter_cons, hshares]
    exact List.rel_append hmatches (.cons hmatch .nil)

/-- What only the right language reports. -/
theorem reportRight {diagnostic : Diagnostic} (h : c.Related n s t)
    (hshares : c.shares diagnostic = false) : c.Related n s (t.report diagnostic) := by
  obtain ⟨new, new', hleft, hright, hmatches⟩ := h.reports
  refine ⟨h.table, h.ledger, h.modes, h.loops, h.result, new, new' ++ [diagnostic], hleft, ?_, ?_⟩
  · rw [State.report, hright, List.append_assoc]
  · rw [List.filter_append, List.filter_cons, hshares]
    simpa using hmatches

theorem openScope (h : c.Related n s t) : c.Related (n + 1) s.openScope t.openScope :=
  ⟨c.push h.table, h.ledger, h.modes, h.loops, h.result, h.reports⟩

theorem closeScope (h : c.Related (n + 1) s t) (depth : Nat) :
    c.Related n (s.closeScope depth) (t.closeScope depth) := by
  obtain ⟨scope, scope', popped, popped', hleft, hright, hpopped⟩ := c.pop h.table
  unfold State.closeScope
  simp only [hleft, hright]
  exact ⟨hpopped, by rw [h.ledger], h.modes, h.loops, h.result, h.reports⟩

/-- Both tables take a symbol, or both have one of its name. -/
theorem declare_cases {symbol : Symbol} (h : c.Related n s t) (hname : c.Sees symbol.name)
    (hsuits : c.Suits symbol) :
    (∃ cause, s.table.declare symbol = .error cause ∧ t.table.declare symbol = .error cause) ∨
    ∃ key declared declared', s.table.declare symbol = .ok (key, declared) ∧
      t.table.declare symbol = .ok (key, declared') ∧
      c.Related n { s with table := declared } { t with table := declared' } := by
  unfold Table.declare
  rw [c.contains_eq h.table hname, (c.answers h.table).depth]
  by_cases htaken : s.table.current.contains symbol.name = true
  · simp only [htaken, if_true]
    exact .inl ⟨_, rfl, rfl⟩
  · simp only [htaken]
    exact .inr ⟨_, _, _, rfl, rfl, h.withTable (c.append h.table hname ⟨hsuits.live, hsuits.known⟩)⟩

/-- In one language both runs report the same. -/
theorem reports_of_same (h : c.Related n s t) (hcrosses : c.crosses = false) :
    ∃ new new', s.diagnostics = c.leftBefore ++ new ∧ t.diagnostics = c.rightBefore ++ new' ∧
      List.Forall₂ c.reading.Matches new new' := by
  obtain ⟨new, new', hleft, hright, hmatches⟩ := h.reports
  rw [List.filter_eq_self.2 fun diagnostic _ => Pairing.shares_of_same hcrosses diagnostic] at hmatches
  exact ⟨new, new', hleft, hright, hmatches⟩

end Related

/-! ### Coupled checks -/

namespace Couples

open Check

variable {α β : Type} {n : Nat} {V : α → α → Prop} {W : β → β → Prop} {check check' : Check α}
  {next next' : α → Check β}

/-- Where the languages do not differ, nothing is spoiled. -/
theorem meets_of_same {s t : State} (h : c.Couples n V check check') (hcrosses : c.crosses = false)
    (hst : c.Related n s t) : c.Ends V (check c.left s).1 (check' c.right t).1 ∧
      c.Related n (check c.left s).2 (check' c.right t).2 := by
  refine (h.meets hst).resolve_left fun hspoiled => ?_
  rw [hspoiled.crosses_eq] at hcrosses
  cases hcrosses

theorem pure {a b : α} (h : V a b) : c.Couples n V (Pure.pure a) (Pure.pure b) where
  grows _ := List.prefix_rfl
  meets hst := .inr ⟨.ok h, hst⟩

theorem fail {fault : Fault} {span span' : Span} (h : fault.isUnsupported = false)
    (hplace : c.reading.Places span span') :
    c.Couples n V (Check.fail fault span) (Check.fail fault span') where
  grows _ := List.prefix_rfl
  meets hst := .inr ⟨.error ⟨rfl, hplace⟩ (Pairing.shares_of_supported h), hst⟩

/-- What the left run reports as moved needs no counterpart. -/
theorem spoil {fault : Fault} {span : Span} (hcrosses : c.crosses = true)
    (h : fault.isUseAfterMove = true) : c.Couples n V (Check.fail fault span) check' where
  grows _ := List.prefix_rfl
  meets _ := .inl (.cut hcrosses h)

theorem bindOn (hrefl : ∀ a, V a a) (h : c.Couples n V check check')
    (hnext : ∀ a b, V a b → c.Couples n W (next a) (next' b)) :
    c.Couples n W (check >>= next) (check' >>= next') := by
  have hgrows : ∀ {s u a}, check c.left s = (.ok a, u) →
      u.diagnostics <+: (next a c.left u).2.diagnostics :=
    fun _ => (hnext _ _ (hrefl _)).grows _
  constructor
  · intro s
    have hfirst := h.grows s
    rw [bind_apply]
    rcases hrun : check c.left s with ⟨diagnostic | a, u⟩
    · rw [hrun] at hfirst
      exact hfirst
    · rw [hrun] at hfirst
      exact hfirst.trans (hgrows hrun)
  · intro s t hst
    have hmeets := h.meets hst
    rw [bind_apply, bind_apply]
    rcases hrun : check c.left s with ⟨result, u⟩
    rcases hrun' : check' c.right t with ⟨result', v⟩
    rw [hrun, hrun'] at hmeets
    rcases hmeets with hspoiled | ⟨hends, huv⟩
    · refine .inl ?_
      cases hspoiled with
      | cut hcrosses hfault => exact .cut hcrosses hfault
      | reported hcrosses hmem hfault =>
          cases result with
          | error diagnostic => exact .reported hcrosses hmem hfault
          | ok a => exact .reported hcrosses ((hgrows hrun).subset hmem) hfault
    · cases hends with
      | error hmatch hshares => exact .inr ⟨.error hmatch hshares, huv⟩
      | ok hab => exact (hnext _ _ hab).meets huv

theorem bind (h : c.Couples n Eq check check') (hnext : ∀ a, c.Couples n W (next a) (next' a)) :
    c.Couples n W (check >>= next) (check' >>= next') :=
  h.bindOn (fun _ => rfl) fun a _ hab => hab ▸ hnext a

theorem state {next next' : State → Check β}
    (h : ∀ s t, c.Alike s t → c.Couples n W (next s) (next' t)) :
    c.Couples n W (Check.state >>= next) (Check.state >>= next') where
  grows s := (h s s (.refl s)).grows s
  meets hst := (h _ _ hst.alike).meets hst

theorem language {next next' : Language → Check β}
    (h : c.Couples n W (next c.left.language) (next' c.right.language)) :
    c.Couples n W (Check.language >>= next) (Check.language >>= next') :=
  ⟨h.grows, h.meets⟩

theorem surroundings {next next' : Env → Check β} (h : c.Couples n W (next c.left) (next' c.right)) :
    c.Couples n W (Check.env >>= next) (Check.env >>= next') :=
  ⟨h.grows, h.meets⟩

theorem depth {next next' : Nat → Check β} (h : ∀ depth, c.Couples n W (next depth) (next' depth)) :
    c.Couples n W (Check.depth >>= next) (Check.depth >>= next') where
  grows s := (h s.depth).grows s
  meets {s t} hst := by
    have hright : (Check.depth >>= next') c.right t = next' s.depth c.right t := by
      rw [← hst.depth_eq]
      rfl
    rw [hright]
    exact (h s.depth).meets hst

theorem modify {f g : State → State} (hgrows : ∀ s, s.diagnostics <+: (f s).diagnostics)
    (h : ∀ {s t}, c.Related n s t → c.Related n (f s) (g t)) :
    c.Couples n Eq (Check.modify f) (Check.modify g) where
  grows := hgrows
  meets hst := .inr ⟨.ok rfl, h hst⟩

theorem report {fault : Fault} {span span' : Span} (h : fault.isUnsupported = false)
    (hplace : c.reading.Places span span') :
    c.Couples n Eq (Check.report fault span) (Check.report fault span') :=
  modify (fun s => List.prefix_append s.diagnostics _) fun hst =>
    hst.report ⟨rfl, hplace⟩ (Pairing.shares_of_supported h)

theorem require {condition : Bool} {fault : Fault} {span span' : Span}
    (h : fault.isUnsupported = false) (hplace : c.reading.Places span span') :
    c.Couples n Eq (Check.require condition fault span) (Check.require condition fault span') := by
  cases condition with
  | true => exact pure rfl
  | false => exact report h hplace

/-- What the language on the right may lack, and the one on the left does not. -/
theorem demand (supports : Language → Bool) (hleft : supports .razorForge = true)
    (construct : Construct) (span : Span) :
    c.Couples n Eq
      (Check.require (supports c.left.language) (.unsupported construct c.left.language) span)
      (Check.require (supports c.right.language) (.unsupported construct c.right.language) span) := by
  cases hcrosses : c.crosses with
  | false =>
      rw [Pairing.right_language hcrosses]
      cases supports c.left.language with
      | true => exact pure rfl
      | false =>
          exact modify (fun s => List.prefix_append s.diagnostics _) fun hst =>
            hst.report (c.reading.matches_refl _) (Pairing.shares_of_same hcrosses _)
  | true =>
      obtain ⟨hrazor, hsuflae⟩ := Pairing.languages_of_crosses hcrosses
      rw [hrazor, hsuflae, hleft]
      refine ⟨fun _ => List.prefix_rfl, fun hst => .inr ?_⟩
      cases supports .suflae with
      | true => exact ⟨.ok rfl, hst⟩
      | false =>
          refine ⟨.ok rfl, hst.reportRight ?_⟩
          rw [Pairing.shares, hcrosses]
          rfl

theorem rule {f f' : State → Except Diagnostic α} (h : ∀ s t, c.Alike s t → f' t = f s)
    (hfault : ∀ s diagnostic, f s = .error diagnostic → diagnostic.fault.Ordinary) :
    c.Couples n Eq (Check.rule f) (Check.rule f') where
  grows _ := List.prefix_rfl
  meets {s t} hst := by
    refine .inr ⟨?_, hst⟩
    simp only [Check.rule, h s t hst.alike]
    cases hverdict : f s with
    | ok a => exact .ok rfl
    | error diagnostic =>
        exact .error (c.reading.matches_refl diagnostic)
          (Pairing.shares_of_supported (hfault s diagnostic hverdict).supported)

theorem judge {verdict : Except Fault α} {span span' : Span}
    (h : ∀ fault, verdict = .error fault → fault.isUnsupported = false)
    (hplace : c.reading.Places span span') :
    c.Couples n Eq (Check.judge verdict span) (Check.judge verdict span') := by
  cases verdict with
  | ok a => exact pure rfl
  | error fault => exact fail (h fault rfl) hplace

theorem attempt (h : c.Couples n Eq check check') :
    c.Couples n Eq (Check.attempt check) (Check.attempt check') := by
  constructor
  · intro s
    have hgrows := h.grows s
    unfold Check.attempt
    rcases hrun : check c.left s with ⟨diagnostic | a, u⟩
    · rw [hrun] at hgrows
      exact hgrows.trans (List.prefix_append _ _)
    · rw [hrun] at hgrows
      exact hgrows
  · intro s t hst
    have hmeets := h.meets hst
    unfold Check.attempt
    rcases hrun : check c.left s with ⟨result, u⟩
    rcases hrun' : check' c.right t with ⟨result', v⟩
    rw [hrun, hrun'] at hmeets
    rcases hmeets with hspoiled | ⟨hends, huv⟩
    · refine .inl ?_
      cases hspoiled with
      | cut hcrosses hfault => exact .reported hcrosses (List.mem_append_right _ (by simp)) hfault
      | reported hcrosses hmem hfault =>
          cases result with
          | error diagnostic => exact .reported hcrosses (List.mem_append_left _ hmem) hfault
          | ok a => exact .reported hcrosses hmem hfault
    · cases hends with
      | error hmatch hshares => exact .inr ⟨.ok rfl, huv.report hmatch hshares⟩
      | ok hab =>
          cases hab
          exact .inr ⟨.ok rfl, huv⟩

theorem reporting {check check' : Check Unit} (h : c.Couples n Eq check check') :
    c.Couples n Eq (Check.reporting check) (Check.reporting check') :=
  h.attempt.bind fun _ => pure rfl

theorem bracket {m : Nat} {before : State → State} {after : State → State → State}
    (hentered : ∀ s, s.diagnostics <+: (before s).diagnostics)
    (hleft : ∀ s t, t.diagnostics <+: (after s t).diagnostics)
    (hbefore : ∀ {s t}, c.Related n s t → c.Related m (before s) (before t))
    (hafter : ∀ {s t u v}, c.Related m s t → c.Related m u v → c.Related n (after s u) (after t v))
    (h : c.Couples m V check check') :
    c.Couples n V (Check.bracket before after check) (Check.bracket before after check') where
  grows s := (hentered s).trans ((h.grows _).trans (hleft _ _))
  meets {s t} hst := by
    rcases h.meets (hbefore hst) with hspoiled | ⟨hends, huv⟩
    · exact .inl (hspoiled.keep (hleft (before s) _))
    · exact .inr ⟨hends, hafter (hbefore hst) huv⟩

theorem withScope (h : c.Couples (n + 1) V check check') :
    c.Couples n V (Check.withScope check) (Check.withScope check') := by
  refine bracket (fun _ => List.prefix_rfl) (fun s t => ?_) (fun hst => hst.openScope) ?_ h
  · exact diagnostics_le_closeScope t _
  · intro s t u v hst huv
    rw [hst.depth_eq]
    exact huv.closeScope _

theorem withMode {mode : Mode} (h : c.Couples n V check check') :
    c.Couples n V (Check.withMode mode check) (Check.withMode mode check') := by
  refine bracket (fun _ => List.prefix_rfl) (fun _ _ => List.prefix_rfl) ?_ ?_ h
  · intro s t hst
    exact ⟨hst.table, hst.ledger, by rw [State.enterMode, State.enterMode, hst.modes], hst.loops,
      hst.result, hst.reports⟩
  · intro s t u v _ huv
    exact ⟨huv.table, huv.ledger, by rw [State.leaveMode, State.leaveMode, huv.modes], huv.loops,
      huv.result, huv.reports⟩

theorem inLoop (h : c.Couples n V check check') :
    c.Couples n V (Check.inLoop check) (Check.inLoop check') := by
  refine bracket (fun _ => List.prefix_rfl) (fun _ _ => List.prefix_rfl) ?_ ?_ h
  · intro s t hst
    exact ⟨hst.table, hst.ledger, hst.modes, congrArg (· + 1) hst.loops, hst.result, hst.reports⟩
  · intro s t u v _ huv
    exact ⟨huv.table, huv.ledger, huv.modes, congrArg (· - 1) huv.loops, huv.result, huv.reports⟩

theorem inRoutine {result : Ty} (h : c.Couples n V check check') :
    c.Couples n V (Check.inRoutine result check) (Check.inRoutine result check') where
  grows s := h.grows { s with result := some result, loops := 0 }
  meets {s t} hst := by
    have hentered : c.Related n { s with result := some result, loops := 0 }
        { t with result := some result, loops := 0 } :=
      ⟨hst.table, hst.ledger, hst.modes, rfl, rfl, hst.reports⟩
    rcases h.meets hentered with hspoiled | ⟨hends, huv⟩
    · exact .inl (hspoiled.keep List.prefix_rfl)
    · exact .inr ⟨hends, huv.table, huv.ledger, huv.modes, hst.loops, hst.result, huv.reports⟩

theorem declare {symbol : Symbol} (hname : c.Sees symbol.name) (hsuits : c.Suits symbol) :
    c.Agrees n (Check.declare symbol) := by
  constructor
  · intro s
    unfold Check.declare
    cases s.table.declare symbol <;> exact List.prefix_rfl
  · intro s t hst
    unfold Check.declare
    rcases hst.declare_cases hname hsuits with
      ⟨cause, hleft, hright⟩ | ⟨key, declared, declared', hleft, hright, hrelated⟩
    · obtain rfl := Table.declare_error hleft
      rw [hleft, hright]
      exact .inr ⟨.error (c.reading.matches_refl _) (Pairing.shares_of_supported rfl), hst⟩
    · rw [hleft, hright]
      exact .inr ⟨.ok rfl, hrelated⟩

/-- A name stands for the same symbol in both runs, up to what has been moved. -/
theorem lookup {name : String} (hname : c.Sees name) (span : Span) :
    c.Couples n c.Same (Check.lookup name span) (Check.lookup name span) where
  grows _ := List.prefix_rfl
  meets {s t} hst := by
    refine .inr ⟨?_, hst⟩
    rcases rel_cases (hst.alike.find? hname) with ⟨hleft, hright⟩ | ⟨a, b, hleft, hright, hab⟩
    · simp only [Check.lookup, Check.rule, hleft, hright]
      exact .error (c.reading.matches_refl _) (Pairing.shares_of_supported rfl)
    · simp only [Check.lookup, Check.rule, hleft, hright]
      exact .ok hab

end Couples

end Coupling

end Custody
