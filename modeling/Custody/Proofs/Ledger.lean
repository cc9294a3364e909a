import Custody.Ledger

/-! An access that ends leaves the ledger as it was before it began, as long as its token was not in
the ledger then. No token is in the ledger that is declared in a scope that has not been opened
yet. -/

namespace Custody.Ledger

/-- Nothing in the ledger belongs to the token `key`. -/
structure Fresh (ledger : Ledger) (key : Binding) : Prop where
  tokens : ∀ token ∈ ledger.tokens, token.key ≠ key
  holds : ∀ entry ∈ ledger.holds, ∀ hold ∈ entry.2, hold.token ≠ key

/-- All tokens in the ledger are declared at `depth` or further out, and each variable that is listed
is held. -/
structure Within (depth : Nat) (ledger : Ledger) : Prop where
  tokens : ∀ token ∈ ledger.tokens, token.key.depth ≤ depth
  holds : ∀ entry ∈ ledger.holds, ∀ hold ∈ entry.2, hold.token.depth ≤ depth
  held : ∀ entry ∈ ledger.holds, entry.2 ≠ []

variable {ledger opened : Ledger} {source key : Binding} {name : String} {access : Access}
  {depth : Nat} {span : Span}

theorem within_empty : Within depth {} :=
  ⟨by simp, by simp, by simp⟩

theorem Within.mono {outer : Nat} (h : ledger.Within outer) (hle : outer ≤ depth) :
    ledger.Within depth where
  tokens token ht := Nat.le_trans (h.tokens token ht) hle
  holds entry he hold hh := Nat.le_trans (h.holds entry he hold hh) hle
  held := h.held

/-- A scope that is opened now has no tokens in the ledger. -/
theorem Within.fresh (h : ledger.Within depth) (hkey : depth < key.depth) : ledger.Fresh key where
  tokens token ht heq := by
    have hle := h.tokens token ht
    rw [heq] at hle
    omega
  holds entry he hold hh heq := by
    have hle := h.holds entry he hold hh
    rw [heq] at hle
    omega

/-! ### Beginning and ending an access -/

/-- What a successful beginning enters. -/
theorem begin_eq_ok (h : ledger.begin source name access depth span = (.ok key, opened)) :
    key = ⟨name, depth⟩ ∧
      opened.tokens = ledger.tokens.filter (·.key != key) ++ [⟨key, source, access, span⟩] ∧
      opened.holds = addHold source ⟨key, access⟩ ledger.holds := by
  unfold begin at h
  split at h
  · cases h
  · cases h
    exact ⟨rfl, rfl, rfl⟩

/-- An access that is refused leaves the ledger as it was. -/
theorem begin_cases (ledger : Ledger) (source : Binding) (name : String) (access : Access)
    (depth : Nat) (span : Span) :
    (∃ violation, ledger.begin source name access depth span = (.error violation, ledger)) ∨
      ∃ key opened, ledger.begin source name access depth span = (.ok key, opened) := by
  unfold begin
  split
  · exact .inl ⟨_, rfl⟩
  · exact .inr ⟨_, _, rfl⟩

theorem filter_tokens_of_fresh (h : ledger.Fresh key) :
    ledger.tokens.filter (·.key != key) = ledger.tokens := by
  rw [List.filter_eq_self]
  intro token ht
  simpa using h.tokens token ht

theorem mem_addHold {hold : Hold} {holds : List (Binding × List Hold)}
    {entry : Binding × List Hold} (h : entry ∈ addHold source hold holds) :
    entry ∈ holds ∨ entry.2 = [hold] ∨ ∃ old ∈ holds, entry.2 = old.2 ++ [hold] := by
  induction holds with
  | nil =>
      rw [addHold, List.mem_singleton] at h
      exact .inr (.inl (h ▸ rfl))
  | cons first rest ih =>
      rw [addHold] at h
      split at h
      · rcases List.mem_cons.1 h with rfl | h
        · exact .inr (.inr ⟨first, List.mem_cons_self, rfl⟩)
        · exact .inl (List.mem_cons_of_mem _ h)
      · rcases List.mem_cons.1 h with rfl | h
        · exact .inl List.mem_cons_self
        · rcases ih h with h | h | ⟨old, hold, h⟩
          · exact .inl (List.mem_cons_of_mem _ h)
          · exact .inr (.inl h)
          · exact .inr (.inr ⟨old, List.mem_cons_of_mem _ hold, h⟩)

/-- The token of an access is declared at the depth at which it begins. -/
theorem Within.begin {outer : Nat} (h : ledger.Within outer) (hle : outer ≤ depth)
    (hbegin : ledger.begin source name access depth span = (.ok key, opened)) :
    opened.Within depth := by
  obtain ⟨rfl, htokens, hholds⟩ := begin_eq_ok hbegin
  have hdepth := h.mono hle
  refine ⟨?_, ?_, ?_⟩
  · intro token ht
    rw [htokens, List.mem_append, List.mem_singleton] at ht
    rcases ht with ht | rfl
    · exact hdepth.tokens token (List.mem_filter.1 ht).1
    · exact Nat.le_refl _
  · intro entry he hold hh
    rw [hholds] at he
    rcases mem_addHold he with he | he | ⟨old, hold', he⟩
    · exact hdepth.holds entry he hold hh
    · rw [he, List.mem_singleton] at hh
      exact hh ▸ Nat.le_refl _
    · rw [he, List.mem_append, List.mem_singleton] at hh
      rcases hh with hh | rfl
      · exact hdepth.holds old hold' hold hh
      · exact Nat.le_refl _
  · intro entry he
    rw [hholds] at he
    rcases mem_addHold he with he | he | ⟨old, -, he⟩
    · exact hdepth.held entry he
    · simp [he]
    · simp [he]

theorem filter_of_fresh {token : Binding} {holds : List Hold}
    (hfresh : ∀ hold ∈ holds, hold.token ≠ token) : holds.filter (·.token != token) = holds := by
  rw [List.filter_eq_self]
  intro hold hmem
  simpa using hfresh hold hmem

theorem dropHold_cons_of_ne {token other : Binding} {list : List Hold}
    {rest : List (Binding × List Hold)} (h : other ≠ source) :
    dropHold source token ((other, list) :: rest) =
      (other, list) :: dropHold source token rest := by
  simp [dropHold, h]

theorem dropHold_cons_self {token : Binding} {list kept : List Hold}
    {rest : List (Binding × List Hold)} (hkept : list.filter (·.token != token) = kept)
    (hne : kept ≠ []) :
    dropHold source token ((source, list) :: rest) =
      (source, kept) :: dropHold source token rest := by
  obtain ⟨first, others, rfl⟩ := List.exists_cons_of_ne_nil hne
  simp [dropHold, hkept]

theorem dropHold_of_fresh {token : Binding} {holds : List (Binding × List Hold)}
    (hfresh : ∀ entry ∈ holds, ∀ hold ∈ entry.2, hold.token ≠ token)
    (hheld : ∀ entry ∈ holds, entry.2 ≠ []) : dropHold source token holds = holds := by
  induction holds with
  | nil => rfl
  | cons entry rest ih =>
      obtain ⟨hfirst, hrest⟩ := List.forall_mem_cons.1 hfresh
      obtain ⟨hne, hothers⟩ := List.forall_mem_cons.1 hheld
      rcases entry with ⟨other, list⟩
      by_cases hsource : other = source
      · rw [hsource, dropHold_cons_self (filter_of_fresh hfirst) hne, ih hrest hothers]
      · rw [dropHold_cons_of_ne hsource, ih hrest hothers]

/-- Ending the access of a new token undoes its beginning. -/
theorem dropHold_addHold {token : Binding} {holds : List (Binding × List Hold)}
    (hfresh : ∀ entry ∈ holds, ∀ hold ∈ entry.2, hold.token ≠ token)
    (hheld : ∀ entry ∈ holds, entry.2 ≠ []) :
    dropHold source token (addHold source ⟨token, access⟩ holds) = holds := by
  induction holds with
  | nil => simp [addHold, dropHold]
  | cons entry rest ih =>
      obtain ⟨hfirst, hrest⟩ := List.forall_mem_cons.1 hfresh
      obtain ⟨hne, hothers⟩ := List.forall_mem_cons.1 hheld
      rcases entry with ⟨other, list⟩
      by_cases hsource : other = source
      · have hfilter : (list ++ [(⟨token, access⟩ : Hold)]).filter (·.token != token) = list := by
          rw [List.filter_append, filter_of_fresh hfirst]
          simp
        rw [addHold, if_pos hsource, hsource, dropHold_cons_self hfilter hne,
          dropHold_of_fresh hrest hothers]
      · rw [addHold, if_neg hsource, dropHold_cons_of_ne hsource, ih hrest hothers]

theorem token?_begin (h : ledger.begin source name access depth span = (.ok key, opened)) :
    opened.token? key = some ⟨key, source, access, span⟩ := by
  obtain ⟨-, htokens, -⟩ := begin_eq_ok h
  unfold token?
  rw [htokens, List.find?_append]
  have hnone : (ledger.tokens.filter (·.key != key)).find? (·.key == key) = none := by
    rw [List.find?_eq_none]
    intro token ht
    simpa using (List.mem_filter.1 ht).2
  rw [hnone]
  simp

theorem finish_begin (hfresh : ledger.Fresh key) (hheld : ∀ entry ∈ ledger.holds, entry.2 ≠ [])
    (h : ledger.begin source name access depth span = (.ok key, opened)) :
    (opened.finish key).2 = ledger := by
  obtain ⟨-, htokens, hholds⟩ := begin_eq_ok h
  rw [filter_tokens_of_fresh hfresh] at htokens
  have htokens' : opened.tokens.filter (·.key != key) = ledger.tokens := by
    rw [htokens, List.filter_append, filter_tokens_of_fresh hfresh]
    simp
  have hholds' : dropHold source key opened.holds = ledger.holds := by
    rw [hholds, dropHold_addHold hfresh.holds hheld]
  rw [finish, token?_begin h]
  simp only [htokens', hholds']

/-- Nothing is left to end in a scope without tokens. -/
theorem retire_of_within {outer : Nat} (h : ledger.Within outer) (hlt : outer < depth) :
    (ledger.retire depth).2 = ledger := by
  have hnone : (ledger.tokens.map (·.key)).filter (depth ≤ ·.depth) = [] := by
    rw [List.filter_eq_nil_iff]
    intro binding hmem
    obtain ⟨token, ht, rfl⟩ := List.mem_map.1 hmem
    have hle := h.tokens token ht
    simp
    omega
  rw [retire, hnone]
  rfl

/-! ### Variables that are held -/

theorem exists_lookup {holds : List (Binding × List Hold)}
    (hlisted : holds.any (·.1 == source) = true) (hheld : ∀ entry ∈ holds, entry.2 ≠ []) :
    ∃ list, holds.lookup source = some list ∧ list ≠ [] := by
  induction holds with
  | nil => simp at hlisted
  | cons entry rest ih =>
      obtain ⟨hne, hothers⟩ := List.forall_mem_cons.1 hheld
      rcases entry with ⟨other, list⟩
      by_cases hsource : other = source
      · exact ⟨list, by simp [hsource], hne⟩
      · obtain ⟨found, hfound, hfoundne⟩ := ih (by simpa [hsource] using hlisted) hothers
        refine ⟨found, ?_, hfoundne⟩
        rw [List.lookup_cons, beq_eq_false_iff_ne.2 (Ne.symm hsource)]
        exact hfound

/-- A variable that is listed is held by some access. -/
theorem Within.lastHold?_of_isHeld {outer : Nat} (h : ledger.Within outer)
    (hlisted : ledger.isHeld source = true) : ∃ hold, ledger.lastHold? source = some hold := by
  obtain ⟨list, hlist, hne⟩ := exists_lookup hlisted h.held
  refine ⟨list.getLast hne, ?_⟩
  rw [lastHold?, holdsOf, hlist]
  exact List.getLast?_eq_some_getLast hne

theorem Within.lastHold?_eq_none_iff {outer : Nat} (h : ledger.Within outer) :
    ledger.lastHold? source = none ↔ ledger.isHeld source = false := by
  constructor
  · intro hnone
    cases hheld : ledger.isHeld source with
    | false => rfl
    | true =>
        obtain ⟨hold, hhold⟩ := h.lastHold?_of_isHeld hheld
        rw [hnone] at hhold
        cases hhold
  · intro hfree
    have hlookup : ledger.holds.lookup source = none := by
      rw [List.lookup_eq_none_iff]
      intro entry he
      have hne : entry.1 ≠ source := by
        simpa using List.any_eq_false.1 hfree entry he
      simpa using Ne.symm hne
    rw [lastHold?, holdsOf, hlookup]
    rfl

/-- A binding that may be used is not held. -/
theorem lastHold?_of_checkUse {key : Binding} {depth : Nat} {use : Use} {usurping : Bool}
    (h : ledger.checkUse key depth use usurping = .ok ()) : ledger.lastHold? key = none := by
  unfold checkUse at h
  split at h
  · cases h
  · assumption

theorem any_addHold {held : Binding} {hold : Hold} {holds : List (Binding × List Hold)}
    (h : holds.any (·.1 == held) = true) : (addHold source hold holds).any (·.1 == held) = true := by
  induction holds with
  | nil => cases h
  | cons entry rest ih =>
      rw [List.any_cons, Bool.or_eq_true] at h
      rw [addHold]
      split
      · rw [List.any_cons, Bool.or_eq_true]
        exact h
      · rw [List.any_cons, Bool.or_eq_true]
        exact h.imp_right ih

/-- What is held stays held when an access begins. -/
theorem isHeld_begin {held : Binding} (hheld : ledger.isHeld held = true)
    (h : ledger.begin source name access depth span = (.ok key, opened)) :
    opened.isHeld held = true := by
  obtain ⟨-, -, hholds⟩ := begin_eq_ok h
  rw [isHeld, hholds]
  exact any_addHold hheld

end Custody.Ledger
