import Custody.Proofs.Check.CoupledProgram

/-! Runs whose tables have the same symbols, but for what has been moved. If both runs are in one
language, their tables are the same. If values move in the left one only, each variable on the right is
the one on the left with its value. -/

namespace Custody

namespace Symbol

@[simp] theorem isMoved_setState_live (symbol : Symbol) :
    (symbol.setState .live).isMoved = false := by
  rcases symbol with ⟨name, kind, ty, visibility, depth, span⟩
  cases kind <;> rfl

theorem setFields_setState (fields : List (String × Ty)) (state : Holding) (symbol : Symbol) :
    (symbol.setState state).setFields fields = (symbol.setFields fields).setState state := by
  rcases symbol with ⟨name, kind, ty, visibility, depth, span⟩
  cases kind <;> rfl

@[simp] theorem module?_setFields (fields : List (String × Ty)) (symbol : Symbol) :
    (symbol.setFields fields).module? = symbol.module? := by
  rcases symbol with ⟨name, kind, ty, visibility, depth, span⟩
  cases kind <;> rfl

end Symbol

/-- The state without what has been reported. -/
def State.silent (s : State) : State :=
  { s with diagnostics := [] }

theorem State.eq_of_silent {s t : State} (h : s.silent = t.silent)
    (hreports : s.diagnostics = t.diagnostics) : s = t :=
  calc
    s = { s.silent with diagnostics := s.diagnostics } := rfl
    _ = { t.silent with diagnostics := t.diagnostics } := by rw [h, hreports]
    _ = t := rfl

namespace Pairing

variable (p : Pairing)

/-- The symbol on the right is the one on the left; if the languages differ, it has its value. -/
def Twins (a b : Symbol) : Prop :=
  b = if p.crosses then a.setState .live else a

/-- What stands for a module stands for one that both runs know. -/
def Familiar (table : Table) : Prop :=
  table.All fun symbol => ∀ path, symbol.module? = some path → p.Knows path

/-- The tables have the same symbols, and the scopes that have been opened are there. -/
structure Twinned (opened : Nat) (table table' : Table) : Prop where
  opened : opened ≤ table.depth
  symbols : table.Matched p.Twins table'
  familiar : p.Familiar table

variable {p}

/-! ### Symbols -/

theorem isChange_same : Symbol.IsChange p.Same where
  refl := Same.refl
  trans hab hbc := by
    refine ⟨hab.similar.trans hbc.similar, ?_⟩
    rcases hab.moved with hab | hab
    · rw [← hab]
      exact hbc.moved
    · exact .inr hab
  revised h := h.similar.revised

namespace Twins

variable {a b : Symbol}

theorem eq (h : p.Twins a b) (hcrosses : p.crosses = false) : b = a := by
  rw [h, hcrosses, if_neg Bool.false_ne_true]

theorem eq_live (h : p.Twins a b) (hcrosses : p.crosses = true) : b = a.setState .live := by
  rw [h, hcrosses, if_pos rfl]

theorem similar (h : p.Twins a b) : a.Similar b := by
  cases hcrosses : p.crosses with
  | true =>
      rw [h.eq_live hcrosses]
      exact Symbol.similar_setState _ _
  | false =>
      rw [h.eq hcrosses]
      exact Symbol.similar_refl a

theorem name_eq (h : p.Twins a b) : b.name = a.name :=
  h.similar.revised.name_eq

theorem same (h : p.Twins a b) : p.Same a b := by
  refine ⟨h.similar, ?_⟩
  cases hcrosses : p.crosses with
  | true =>
      rw [h.eq_live hcrosses]
      cases hmoved : a.isMoved with
      | true => exact .inr ⟨rfl, rfl⟩
      | false => exact .inl (by simp)
  | false =>
      rw [h.eq hcrosses]
      exact .inl rfl

theorem of_live (h : p.crosses = true → a.isMoved = false) : p.Twins a a := by
  cases hcrosses : p.crosses with
  | true =>
      rw [Twins, hcrosses, if_pos rfl]
      exact (Symbol.setState_live (h hcrosses)).symm
  | false => rw [Twins, hcrosses, if_neg Bool.false_ne_true]

/-- Where the languages do not differ, the symbols may change in any way if they do so alike. -/
theorem map (h : p.Twins a b) (hcrosses : p.crosses = false) (f : Symbol → Symbol) :
    p.Twins (f a) (f b) := by
  rw [Twins, hcrosses, if_neg Bool.false_ne_true, h.eq hcrosses]

/-- Where the languages differ, only the variable on the left has a state. -/
theorem setState (h : p.Twins a b) (hcrosses : p.crosses = true) (state : Holding) :
    p.Twins (a.setState state) b := by
  rw [Twins, hcrosses, if_pos rfl, h.eq_live hcrosses, Symbol.setState_setState]

theorem setFields (h : p.Twins a b) (fields : List (String × Ty)) :
    p.Twins (a.setFields fields) (b.setFields fields) := by
  cases hcrosses : p.crosses with
  | true =>
      rw [Twins, hcrosses, if_pos rfl, h.eq_live hcrosses]
      exact Symbol.setFields_setState fields .live a
  | false => exact h.map hcrosses _

end Twins

/-! ### Tables -/

namespace Twinned

variable {n : Nat} {table table' : Table} {name : String}

theorem table_eq (h : p.Twinned n table table') (hcrosses : p.crosses = false) : table' = table :=
  (h.symbols.eq fun _ _ hab => (hab.eq hcrosses).symm).symm

theorem answers (h : p.Twinned n table table') : p.Answers (fun _ => True) table table' := by
  have hfind : ∀ name, Option.Rel p.Same (table.find? name) (table'.find? name) :=
    (h.symbols.mono fun _ _ hab => hab.same).find? isChange_same
  have hsimilar : ∀ name, Option.Rel Symbol.Similar (table.find? name) (table'.find? name) :=
    (h.symbols.mono fun _ _ hab => hab.similar).find? Symbol.isChange_similar
  exact ⟨h.symbols.depth_eq, fun _ => hfind _, Table.isReference_similar hsimilar,
    fun _ object => Table.memberType_similar hsimilar object _⟩

theorem append {symbol : Symbol} (h : p.Twinned n table table') (hsuits : p.Suits symbol) :
    p.Twinned n (table.append symbol) (table'.append symbol) := by
  refine ⟨?_, h.symbols.append (.of_live hsuits.live), h.familiar.append hsuits.known⟩
  rw [Table.depth_append]
  exact h.opened

theorem update {f g : Symbol → Symbol} (h : p.Twinned n table table')
    (hf : ∀ {a b}, p.Twins a b → p.Twins (f a) (g b)) (hmodule : ∀ a, (f a).module? = a.module?) :
    p.Twinned n (table.update name f) (table'.update name g) := by
  refine ⟨?_, h.symbols.update Twins.name_eq hf, h.familiar.update fun symbol hsymbol path hpath => ?_⟩
  · rw [Table.depth_update]
    exact h.opened
  · rw [hmodule] at hpath
    exact hsymbol path hpath

/-- Only the table on the left changes. -/
theorem updateLeft {f : Symbol → Symbol} (h : p.Twinned n table table')
    (hf : ∀ {a b}, p.Twins a b → p.Twins (f a) b) (hmodule : ∀ a, (f a).module? = a.module?) :
    p.Twinned n (table.update name f) table' := by
  have hupdate : p.Twinned n (table.update name f) (table'.update name id) := h.update hf hmodule
  rw [Table.update_id] at hupdate
  exact hupdate

theorem takenOver (h : p.Twinned n table table') :
    p.Twinned n (table.takenOver p.left.language name) (table'.takenOver p.right.language name) := by
  unfold Table.takenOver
  cases hcrosses : p.crosses with
  | false =>
      rw [right_language hcrosses]
      split
      · exact h.update (fun htwins => htwins.map hcrosses _) (by simp)
      · exact h
  | true =>
      obtain ⟨hrazor, hsuflae⟩ := languages_of_crosses hcrosses
      have hstays : Language.suflae.moves = false := rfl
      rw [hrazor, hsuflae, hstays, if_neg Bool.false_ne_true]
      split
      · exact h.updateLeft (fun htwins => htwins.setState hcrosses _) (by simp)
      · exact h

/-- Where the languages differ, no variable on the right is without its value. -/
theorem find?_live {symbol : Symbol} (h : p.Twinned n table table') (hcrosses : p.crosses = true)
    (hfind : table'.find? name = some symbol) : symbol.isMoved = false := by
  have hlive : table'.All (·.isMoved = false) := h.symbols.all_right fun hab => by
    rw [hab.eq_live hcrosses, Symbol.isMoved_setState_live]
  exact hlive.find? hfind

theorem revived (h : p.Twinned n table table') :
    p.Twinned n (table.revived name) (table'.revived name) := by
  cases hcrosses : p.crosses with
  | false =>
      obtain rfl := h.table_eq hcrosses
      unfold Table.revived
      split
      · exact h.update (fun htwins => htwins.map hcrosses _) (by simp)
      · exact h
  | true =>
      have hright : (table'.find? name).any (·.isMoved) = false := by
        cases hfind : table'.find? name with
        | none => rfl
        | some symbol => exact h.find?_live hcrosses hfind
      unfold Table.revived
      rw [hright, if_neg Bool.false_ne_true]
      split
      · exact h.updateLeft (fun htwins => htwins.setState hcrosses _) (by simp)
      · exact h

theorem push (h : p.Twinned n table table') : p.Twinned (n + 1) table.push table'.push := by
  refine ⟨?_, h.symbols.push, h.familiar.push⟩
  rw [Table.depth_push]
  exact Nat.succ_le_succ h.opened

theorem pop (h : p.Twinned (n + 1) table table') : ∃ scope scope' popped popped',
    table.pop = .ok (scope, popped) ∧ table'.pop = .ok (scope', popped') ∧
      p.Twinned n popped popped' := by
  rcases h.symbols.pop with ⟨scope, scope', popped, popped', hleft, hright, hpopped⟩ | ⟨hleft, -⟩
  · refine ⟨scope, scope', popped, popped', hleft, hright, ?_, hpopped, h.familiar.pop hleft⟩
    have hdepth := h.opened
    rcases table with ⟨root, _ | ⟨first, outer⟩⟩
    · cases hleft
    · cases hleft
      exact Nat.le_of_succ_le_succ hdepth
  · have hdepth := h.opened
    rcases table with ⟨root, _ | ⟨first, outer⟩⟩
    · exact absurd hdepth (Nat.not_succ_le_zero n)
    · cases hleft

end Twinned

/-- The runs see all names. -/
def twins (p : Pairing) : Coupling where
  toPairing := p
  Sees _ := True
  Joined := p.Twinned
  answers h := h.answers
  contains_eq h _ := Scope.contains_matched Twins.name_eq h.symbols.current
  knows h hfind hmodule := h.familiar.find? hfind _ hmodule
  append h _ hsuits := h.append hsuits
  takenOver h _ := h.takenOver
  revived h _ := h.revived
  push h := h.push
  pop h := h.pop

theorem whole_twins (h : p.reading = .written) : p.twins.Whole where
  written := h
  sees _ := trivial
  setFields {n table table' name fields} hjoined := by
    have htwinned : p.Twinned n table table' := hjoined
    exact htwinned.update (fun htwins => htwins.setFields fields) (Symbol.module?_setFields fields)

/-! ### One language -/

variable {s t : State}

theorem twins_silent {n : Nat} (h : p.twins.Related n s t) (hcrosses : p.crosses = false) :
    s.silent = t.silent := by
  have htable : t.table = s.table := Twinned.table_eq h.table hcrosses
  rw [State.silent, State.silent, htable, h.ledger, h.modes, h.loops, h.result]

/-- Runs in one language may start from states that differ in what has been reported. -/
theorem related_twins (hcrosses : p.crosses = false) (h : s.silent = t.silent)
    (hleft : p.leftBefore = s.diagnostics) (hright : p.rightBefore = t.diagnostics)
    (hfamiliar : p.Familiar s.table) : p.twins.Related 0 s t := by
  have htwins : ∀ a, p.Twins a a := fun a => .of_live fun h => by
    rw [hcrosses] at h
    cases h
  obtain ⟨htable, hledger, hmodes, hloops, hresult, -⟩ := State.mk.inj h
  refine ⟨⟨Nat.zero_le _, ?_, hfamiliar⟩, hledger.symm, hmodes.symm, hloops.symm, hresult.symm,
    [], [], ?_, ?_, .nil⟩
  · rw [← htable]
    exact .refl htwins s.table
  · show _ = p.leftBefore ++ []
    rw [hleft, List.append_nil]
  · show _ = p.rightBefore ++ []
    rw [hright, List.append_nil]

/-- Two runs in one language, which may know different modules. -/
def within (language : Language) (known known' : List Module) (s t : State) : Pairing where
  left := ⟨language, known⟩
  right := ⟨language, known'⟩
  languages := .inl rfl
  leftBefore := s.diagnostics
  rightBefore := t.diagnostics

variable {language : Language} {known known' : List Module}

theorem crosses_within : (within language known known' s t).crosses = false :=
  bne_self_eq_false _

theorem admits_decl (decl : Decl) :
    (within language known known' s t).twins.Admits (.decl decl) (.decl decl) := by
  refine .decl fun hcrosses => ?_
  have hwithin : (within language known known' s t).crosses = true := hcrosses
  rw [crosses_within] at hwithin
  cases hwithin

/-- Checks that are coupled report the same in one language, whatever has been reported before. -/
theorem meets_within {check check' : Check Unit}
    (h : (within language known known' s t).twins.Couples 0 Eq check check')
    (hst : s.silent = t.silent) (hs : (within language known known' s t).Familiar s.table) :
    let u := (check ⟨language, known⟩ s).2
    let v := (check' ⟨language, known'⟩ t).2
    u.silent = v.silent ∧ (within language known known' s t).Familiar u.table ∧
      ∃ new, u.diagnostics = s.diagnostics ++ new ∧ v.diagnostics = t.diagnostics ++ new := by
  intro u v
  obtain ⟨-, hrelated⟩ := h.meets_of_same crosses_within
    (related_twins crosses_within hst rfl rfl hs)
  obtain ⟨new, new', hleft, hright, hmatches⟩ := hrelated.reports_of_same crosses_within
  obtain rfl : new' = new := Reading.reports_eq_of_written hmatches
  exact ⟨twins_silent hrelated crosses_within, hrelated.table.familiar, new', hleft, hright⟩

end Pairing

end Custody
