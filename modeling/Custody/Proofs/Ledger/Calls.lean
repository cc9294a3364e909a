import Custody.Proofs.Ledger
import Custody.Proofs.Library.Graph
import Mathlib.Data.List.Nodup

/-! The ledger after any calls. Whatever is asked of it, a variable that is held is held by one access
or by accesses that all observe it, and a live token has an access that it stands for. As long as no
call takes the name and depth of a live token again, it is also the other way round: every access
belongs to one live token, so that a variable is free as soon as its tokens have ended, in whichever
order they end. -/

namespace Custody.Ledger

variable {ledger opened after : Ledger} {source key : Binding} {name : String} {access : Access}
  {depth : Nat} {span : Span} {token : Token}

/-! ### The accesses to one variable -/

theorem lookup_addHold (hold : Hold) (holds : List (Binding × List Hold)) (other : Binding) :
    (addHold source hold holds).lookup other =
      if other = source then some ((holds.lookup source).getD [] ++ [hold])
      else holds.lookup other := by
  induction holds with
  | nil =>
      by_cases hother : other = source
      · simp [addHold, hother]
      · simp [addHold, List.lookup_cons, beq_eq_false_iff_ne.2 hother, hother]
  | cons entry rest ih =>
      rcases entry with ⟨first, list⟩
      rw [addHold]
      by_cases hfirst : first = source
      · subst hfirst
        by_cases hother : other = first
        · simp [hother]
        · simp [List.lookup_cons, beq_eq_false_iff_ne.2 hother, hother]
      · have hsource : (source == first) = false := beq_eq_false_iff_ne.2 (Ne.symm hfirst)
        rw [if_neg hfirst, List.lookup_cons, List.lookup_cons, List.lookup_cons, ih, hsource]
        by_cases hother : other = first
        · subst hother
          simp [hfirst]
        · rw [beq_eq_false_iff_ne.2 hother]

theorem holdsOf_begin (h : ledger.begin source name access depth span = (.ok key, opened))
    (other : Binding) :
    opened.holdsOf other =
      if other = source then ledger.holdsOf source ++ [⟨key, access⟩] else ledger.holdsOf other := by
  obtain ⟨-, -, hholds⟩ := begin_eq_ok h
  rw [holdsOf, hholds, lookup_addHold]
  split <;> rfl

theorem lookup_eq_none_of_notMem {holds : List (Binding × List Hold)}
    (h : source ∉ holds.map (·.1)) : holds.lookup source = none := by
  rw [List.lookup_eq_none_iff]
  intro entry he
  have hne : source ≠ entry.1 := fun heq => h (heq ▸ List.mem_map_of_mem he)
  simpa using hne

section Changes

variable {change : Binding × List Hold → Option (Binding × List Hold)}

/-- Variables whose accesses are changed, or which are no longer listed, leave the others in their
order. -/
theorem sources_filterMap (hchange : ∀ entry kept, change entry = some kept → kept.1 = entry.1)
    (holds : List (Binding × List Hold)) :
    ((holds.filterMap change).map (·.1)).Sublist (holds.map (·.1)) := by
  induction holds with
  | nil => exact .slnil
  | cons entry rest ih =>
      cases hentry : change entry with
      | none =>
          rw [List.filterMap_cons_none hentry]
          exact ih.cons _
      | some kept =>
          rw [List.filterMap_cons_some hentry, List.map_cons, hchange entry kept hentry]
          exact ih.cons_cons _

theorem lookup_filterMap (hchange : ∀ entry kept, change entry = some kept → kept.1 = entry.1)
    {holds : List (Binding × List Hold)} (hdistinct : (holds.map (·.1)).Nodup) (source : Binding) :
    (holds.filterMap change).lookup source =
      (holds.lookup source).bind fun list => (change (source, list)).map (·.2) := by
  induction holds with
  | nil => rfl
  | cons entry rest ih =>
      rcases entry with ⟨first, list⟩
      obtain ⟨hnot, hrest⟩ := List.nodup_cons.1 hdistinct
      by_cases hfirst : source = first
      · subst hfirst
        cases hentry : change (source, list) with
        | none =>
            have hgone : source ∉ (rest.filterMap change).map (·.1) :=
              fun hin => hnot ((sources_filterMap hchange rest).subset hin)
            rw [List.filterMap_cons_none hentry, lookup_eq_none_of_notMem hgone]
            simp [hentry]
        | some kept =>
            rcases kept with ⟨other, kept⟩
            obtain rfl : other = source := hchange _ _ hentry
            rw [List.filterMap_cons_some hentry]
            simp [hentry]
      · have hne : (source == first) = false := beq_eq_false_iff_ne.2 hfirst
        rw [List.lookup_cons, hne]
        cases hentry : change (first, list) with
        | none => rw [List.filterMap_cons_none hentry, ih hrest]
        | some kept =>
            rcases kept with ⟨other, kept⟩
            obtain rfl : other = first := hchange _ _ hentry
            rw [List.filterMap_cons_some hentry, List.lookup_cons, hne]
            exact ih hrest

end Changes

/-- A variable and its accesses without those of some tokens, if any are left. -/
def strip (gone : Binding → Bool) (entry : Binding × List Hold) : Option (Binding × List Hold) :=
  if entry.2.filter (fun hold => !gone hold.token) = [] then none
  else some (entry.1, entry.2.filter fun hold => !gone hold.token)

theorem strip_eq_some {gone : Binding → Bool} {entry kept : Binding × List Hold}
    (h : strip gone entry = some kept) :
    kept.1 = entry.1 ∧ kept.2 = entry.2.filter (fun hold => !gone hold.token) ∧ kept.2 ≠ [] := by
  unfold strip at h
  split at h
  · cases h
  · rename_i hne
    cases h
    exact ⟨rfl, rfl, hne⟩

theorem strip_eq_none {gone : Binding → Bool} {entry : Binding × List Hold}
    (h : strip gone entry = none) : entry.2.filter (fun hold => !gone hold.token) = [] := by
  by_contra hne
  simp [strip, hne] at h

theorem getD_strip (gone : Binding → Bool) (entry : Binding × List Hold) :
    ((strip gone entry).map (·.2)).getD [] = entry.2.filter fun hold => !gone hold.token := by
  cases hstrip : strip gone entry with
  | none => exact (strip_eq_none hstrip).symm
  | some kept => exact (strip_eq_some hstrip).2.1

/-- Dropping a token's accesses to a variable looks at this variable only. -/
theorem dropHold_eq_filterMap (source token : Binding) (holds : List (Binding × List Hold)) :
    dropHold source token holds =
      holds.filterMap fun entry => if entry.1 = source then strip (· == token) entry else some entry := by
  apply List.filterMap_congr
  intro entry _
  rcases entry with ⟨other, list⟩
  by_cases hother : other = source
  · simp only [hother, if_true, strip]
    split
    · rename_i hnone
      exact (if_pos hnone).symm
    · rename_i hold rest hkept
      have hkept' : list.filter (fun hold => !(hold.token == token)) = hold :: rest := hkept
      rw [hkept', if_neg (by simp)]
  · simp only [hother, if_false]

theorem source_of_drop {token : Binding} (entry kept : Binding × List Hold)
    (h : (if entry.1 = source then strip (· == token) entry else some entry) = some kept) :
    kept.1 = entry.1 := by
  split at h
  · exact (strip_eq_some h).1
  · cases h
    rfl

/-- The variables that are still listed stay in their order. -/
theorem sources_dropHold (source token : Binding) (holds : List (Binding × List Hold)) :
    ((dropHold source token holds).map (·.1)).Sublist (holds.map (·.1)) := by
  rw [dropHold_eq_filterMap]
  exact sources_filterMap source_of_drop holds

/-! ### Any calls -/

/-- The two lists of a ledger as maps: no binding is listed twice, and what is listed as held is held.
Several accesses to one variable all observe it, and every live token has its access. -/
structure Regular (ledger : Ledger) : Prop where
  keys : (ledger.tokens.map (·.key)).Nodup
  sources : (ledger.holds.map (·.1)).Nodup
  held : ∀ entry ∈ ledger.holds, entry.2 ≠ []
  shared : ∀ source, 1 < (ledger.holdsOf source).length →
    ∀ hold ∈ ledger.holdsOf source, hold.access = .observing
  entered : ∀ token ∈ ledger.tokens, ⟨token.key, token.access⟩ ∈ ledger.holdsOf token.source

theorem regular_empty : Regular {} :=
  ⟨.nil, .nil, by simp, by simp [holdsOf], by simp⟩

/-- The ledger refuses an access if and only if one is open that cannot go together with it. -/
theorem begin_error_iff :
    (∃ violation, (ledger.begin source name access depth span).1 = .error violation) ↔
      ∃ hold ∈ ledger.holdsOf source, hold.access.compatible access = false := by
  unfold begin
  cases hfind : (ledger.holdsOf source).find? (fun hold => !hold.access.compatible access) with
  | some hold =>
      have hbad := List.find?_some hfind
      exact ⟨fun _ => ⟨hold, List.mem_of_find?_eq_some hfind, by simpa using hbad⟩,
        fun _ => ⟨_, rfl⟩⟩
  | none =>
      constructor
      · rintro ⟨violation, h⟩
        cases h
      · rintro ⟨hold, hmem, hbad⟩
        have hgood := List.find?_eq_none.1 hfind hold hmem
        simp [hbad] at hgood

/-- An access that is entered goes together with all that are open. -/
theorem compatible_of_begin (h : ledger.begin source name access depth span = (.ok key, opened))
    {hold : Hold} (hmem : hold ∈ ledger.holdsOf source) :
    hold.access = .observing ∧ access = .observing := by
  have hcompatible : hold.access.compatible access = true := by
    by_contra hnot
    obtain ⟨violation, herror⟩ := begin_error_iff.2 ⟨hold, hmem, Bool.not_eq_true _ ▸ hnot⟩
    rw [h] at herror
    cases herror
  simpa [Access.compatible] using hcompatible

theorem sources_addHold (source : Binding) (hold : Hold) (holds : List (Binding × List Hold)) :
    (addHold source hold holds).map (·.1) =
      if source ∈ holds.map (·.1) then holds.map (·.1) else holds.map (·.1) ++ [source] := by
  induction holds with
  | nil => simp [addHold]
  | cons entry rest ih =>
      rw [addHold]
      by_cases hfirst : entry.1 = source
      · simp [hfirst]
      · rw [if_neg hfirst, List.map_cons, ih]
        by_cases hrest : source ∈ rest.map (·.1) <;> simp [hrest, Ne.symm hfirst]

theorem keys_begin (h : ledger.begin source name access depth span = (.ok key, opened))
    (hkeys : (ledger.tokens.map (·.key)).Nodup) : (opened.tokens.map (·.key)).Nodup := by
  obtain ⟨-, htokens, -⟩ := begin_eq_ok h
  have hold : ((ledger.tokens.filter (·.key != key)).map (·.key)).Nodup :=
    hkeys.sublist (List.filter_sublist.map _)
  have hnew : key ∉ (ledger.tokens.filter (·.key != key)).map (·.key) := by
    intro hin
    obtain ⟨token, htoken, heq⟩ := List.mem_map.1 hin
    have hne := (List.mem_filter.1 htoken).2
    simp [heq] at hne
  rw [htokens, List.map_append, List.map_singleton, ← List.concat_eq_append]
  exact hold.concat hnew

theorem sources_begin (h : ledger.begin source name access depth span = (.ok key, opened))
    (hsources : (ledger.holds.map (·.1)).Nodup) : (opened.holds.map (·.1)).Nodup := by
  obtain ⟨-, -, hholds⟩ := begin_eq_ok h
  rw [hholds, sources_addHold]
  split
  · exact hsources
  · rename_i hnew
    rw [← List.concat_eq_append]
    exact hsources.concat hnew

theorem held_begin (h : ledger.begin source name access depth span = (.ok key, opened))
    (hheld : ∀ entry ∈ ledger.holds, entry.2 ≠ []) : ∀ entry ∈ opened.holds, entry.2 ≠ [] := by
  obtain ⟨-, -, hholds⟩ := begin_eq_ok h
  intro entry he
  rw [hholds] at he
  rcases mem_addHold he with he | he | ⟨old, -, he⟩
  · exact hheld entry he
  · simp [he]
  · simp [he]

/-- What holds a variable goes on to hold it when an access begins. -/
theorem mem_holdsOf_begin (h : ledger.begin source name access depth span = (.ok key, opened))
    {other : Binding} {hold : Hold} (hmem : hold ∈ ledger.holdsOf other) :
    hold ∈ opened.holdsOf other := by
  rw [holdsOf_begin h]
  split
  · rename_i heq
    exact List.mem_append_left _ (heq ▸ hmem)
  · exact hmem

theorem Regular.begin (hregular : ledger.Regular)
    (h : ledger.begin source name access depth span = (.ok key, opened)) : opened.Regular where
  keys := keys_begin h hregular.keys
  sources := sources_begin h hregular.sources
  held := held_begin h hregular.held
  shared other hmany hold hmem := by
    rw [holdsOf_begin h] at hmany hmem
    split at hmany
    · rename_i heq
      rw [if_pos heq] at hmem
      -- a second access is entered only beside accesses that observe, and observes itself
      have hother : ledger.holdsOf source ≠ [] := by
        rintro hnil
        simp [hnil] at hmany
      obtain ⟨first, rest, hfirst⟩ := List.exists_cons_of_ne_nil hother
      have hfirstmem : first ∈ ledger.holdsOf source := by simp [hfirst]
      rcases List.mem_append.1 hmem with hold' | hnew
      · exact (compatible_of_begin h hold').1
      · rw [List.mem_singleton.1 hnew]
        exact (compatible_of_begin h hfirstmem).2
    · rename_i hne
      rw [if_neg hne] at hmem
      exact hregular.shared other hmany hold hmem
  entered token ht := by
    obtain ⟨-, htokens, -⟩ := begin_eq_ok h
    rw [htokens, List.mem_append, List.mem_singleton] at ht
    rcases ht with hold | rfl
    · exact mem_holdsOf_begin h (hregular.entered token (List.mem_filter.1 hold).1)
    · rw [holdsOf_begin h, if_pos rfl]
      simp

theorem token?_eq_some_iff (hkeys : (ledger.tokens.map (·.key)).Nodup) :
    ledger.token? key = some token ↔ token ∈ ledger.tokens ∧ token.key = key :=
  find?_key_eq_some_iff Token.key hkeys

/-- What ending an access does: the token goes, and with it its access to its variable. -/
theorem finish_cases (ledger : Ledger) (key : Binding) :
    (ledger.token? key = none ∧ (ledger.finish key).2 = ledger) ∨
    ∃ token, ledger.token? key = some token ∧
      (ledger.finish key).2.tokens = ledger.tokens.filter (·.key != key) ∧
      (ledger.finish key).2.holds = dropHold token.source key ledger.holds := by
  unfold finish
  cases htoken : ledger.token? key with
  | none => exact .inl ⟨rfl, rfl⟩
  | some token => exact .inr ⟨token, rfl, rfl, rfl⟩

/-- Of the variable that a token stood for, the accesses of other tokens are left. -/
theorem holdsOf_finish (hsources : (ledger.holds.map (·.1)).Nodup)
    (hholds : after.holds = dropHold source key ledger.holds) (other : Binding) :
    after.holdsOf other =
      if other = source then (ledger.holdsOf source).filter (·.token != key)
      else ledger.holdsOf other := by
  rw [holdsOf, hholds, dropHold_eq_filterMap, lookup_filterMap source_of_drop hsources]
  split
  · rename_i heq
    rw [heq, holdsOf]
    cases ledger.holds.lookup source with
    | none => rfl
    | some list =>
        simp only [Option.bind_some]
        exact getD_strip _ _
  · rw [holdsOf]
    cases ledger.holds.lookup other <;> rfl

theorem held_dropHold (source token : Binding) (holds : List (Binding × List Hold))
    (hheld : ∀ entry ∈ holds, entry.2 ≠ []) :
    ∀ entry ∈ dropHold source token holds, entry.2 ≠ [] := by
  rw [dropHold_eq_filterMap]
  intro entry he
  obtain ⟨old, hmem, hentry⟩ := List.mem_filterMap.1 he
  split at hentry
  · exact (strip_eq_some hentry).2.2
  · cases hentry
    exact hheld entry hmem

/-- Of the accesses to a variable, an end leaves a part. -/
theorem holdsOf_finish_sublist (hsources : (ledger.holds.map (·.1)).Nodup)
    (hholds : after.holds = dropHold source key ledger.holds) (other : Binding) :
    (after.holdsOf other).Sublist (ledger.holdsOf other) := by
  rw [holdsOf_finish hsources hholds]
  split
  · rename_i heq
    exact heq ▸ List.filter_sublist
  · exact .refl _

theorem Regular.finish (hregular : ledger.Regular) (key : Binding) :
    (ledger.finish key).2.Regular := by
  rcases finish_cases ledger key with ⟨-, hsame⟩ | ⟨token, htoken, htokens, hholds⟩
  · exact hsame.symm ▸ hregular
  · have hless := holdsOf_finish_sublist hregular.sources hholds
    refine ⟨?_, ?_, ?_, ?_, ?_⟩
    · rw [htokens]
      exact hregular.keys.sublist (List.filter_sublist.map _)
    · rw [hholds]
      exact hregular.sources.sublist (sources_dropHold _ _ _)
    · rw [hholds]
      exact held_dropHold _ _ _ hregular.held
    · intro other hmany hold hmem
      have hmany' := Nat.lt_of_lt_of_le hmany (hless other).length_le
      exact hregular.shared other hmany' hold ((hless other).subset hmem)
    · intro live hlive
      rw [htokens, List.mem_filter] at hlive
      have hentered := hregular.entered live hlive.1
      rw [holdsOf_finish hregular.sources hholds]
      split
      · rename_i heq
        exact List.mem_filter.2 ⟨heq ▸ hentered, hlive.2⟩
      · exact hentered

theorem Regular.finishAll (hregular : ledger.Regular) (keys : List Binding) :
    (ledger.finishAll keys).2.Regular := by
  induction keys generalizing ledger with
  | nil => exact hregular
  | cons key keys ih => exact ih (hregular.finish key)

/-! ### Calls that take no live token's place -/

/-- Every access to a variable belongs to a live token for this variable, and no two to one. -/
structure Owned (ledger : Ledger) : Prop where
  owner : ∀ source, ∀ hold ∈ ledger.holdsOf source, ∃ token ∈ ledger.tokens,
    token.key = hold.token ∧ token.source = source ∧ token.access = hold.access
  once : ∀ source, ((ledger.holdsOf source).map (·.token)).Nodup

theorem owned_empty : Owned {} :=
  ⟨by simp [holdsOf], by simp [holdsOf]⟩

theorem filter_tokens_of_token?_eq_none (h : ledger.token? key = none) :
    ledger.tokens.filter (·.key != key) = ledger.tokens := by
  rw [List.filter_eq_self]
  intro token ht
  have hne := List.find?_eq_none.1 h token ht
  simpa using hne

theorem Owned.begin (howned : ledger.Owned)
    (h : ledger.begin source name access depth span = (.ok key, opened))
    (hnew : ledger.token? key = none) : opened.Owned := by
  obtain ⟨-, htokens, -⟩ := begin_eq_ok h
  rw [filter_tokens_of_token?_eq_none hnew] at htokens
  refine ⟨?_, ?_⟩
  · intro other hold hmem
    have hold' : hold ∈ ledger.holdsOf other ∨ other = source ∧ hold = ⟨key, access⟩ := by
      rw [holdsOf_begin h] at hmem
      split at hmem
      · rename_i heq
        rcases List.mem_append.1 hmem with hmem | hmem
        · exact .inl (heq ▸ hmem)
        · exact .inr ⟨heq, List.mem_singleton.1 hmem⟩
      · exact .inl hmem
    rw [htokens]
    rcases hold' with hmem | ⟨rfl, rfl⟩
    · obtain ⟨token, ht, hfacts⟩ := howned.owner other hold hmem
      exact ⟨token, List.mem_append_left _ ht, hfacts⟩
    · exact ⟨_, List.mem_append_right _ (List.mem_singleton_self _), rfl, rfl, rfl⟩
  · intro other
    rw [holdsOf_begin h]
    split
    · -- the accesses that are open have owners, and the new token is none of these
      have hfree : key ∉ (ledger.holdsOf source).map (·.token) := by
        intro hin
        obtain ⟨hold, hmem, heq⟩ := List.mem_map.1 hin
        obtain ⟨token, ht, hkey, -, -⟩ := howned.owner source hold hmem
        have hne := List.find?_eq_none.1 hnew token ht
        simp [hkey, heq] at hne
      rw [List.map_append, List.map_singleton, ← List.concat_eq_append]
      exact (howned.once source).concat hfree
    · exact howned.once other

theorem Owned.finish (howned : ledger.Owned) (hregular : ledger.Regular) (key : Binding) :
    (ledger.finish key).2.Owned := by
  rcases finish_cases ledger key with ⟨-, hsame⟩ | ⟨token, htoken, htokens, hholds⟩
  · exact hsame.symm ▸ howned
  · have hless := holdsOf_finish_sublist hregular.sources hholds
    obtain ⟨hlive, hkey⟩ := (token?_eq_some_iff hregular.keys).1 htoken
    refine ⟨?_, fun other => (howned.once other).sublist ((hless other).map _)⟩
    intro other hold hmem
    obtain ⟨owner, howner, hfacts⟩ := howned.owner other hold ((hless other).subset hmem)
    refine ⟨owner, ?_, hfacts⟩
    rw [htokens, List.mem_filter]
    refine ⟨howner, ?_⟩
    -- the owner is not the token that ends: of its own variable no access is left to that token
    have hne : owner.key ≠ key := by
      intro heq
      have hsame := List.inj_on_of_nodup_map hregular.keys howner hlive (heq.trans hkey.symm)
      rw [holdsOf_finish hregular.sources hholds, if_pos (hfacts.2.1.symm.trans (hsame ▸ rfl))]
        at hmem
      have hleft := (List.mem_filter.1 hmem).2
      simp [← hfacts.1, heq] at hleft
    simpa using hne

theorem Owned.finishAll (howned : ledger.Owned) (hregular : ledger.Regular) (keys : List Binding) :
    (ledger.finishAll keys).2.Owned := by
  induction keys generalizing ledger with
  | nil => exact howned
  | cons key keys ih => exact ih (howned.finish hregular key) (hregular.finish key)

theorem isHeld_iff (hheld : ∀ entry ∈ ledger.holds, entry.2 ≠ []) :
    ledger.isHeld source = true ↔ ledger.holdsOf source ≠ [] := by
  constructor
  · intro hlisted
    obtain ⟨list, hlookup, hne⟩ := exists_lookup hlisted hheld
    rw [holdsOf, hlookup]
    exact hne
  · intro hne
    by_contra hfree
    have hnot : source ∉ ledger.holds.map (·.1) := by
      intro hin
      obtain ⟨entry, he, heq⟩ := List.mem_map.1 hin
      exact hfree (List.any_eq_true.2 ⟨entry, he, by simp [heq]⟩)
    rw [holdsOf, lookup_eq_none_of_notMem hnot] at hne
    exact hne rfl

/-- A variable is held if and only if a live token stands for it. -/
theorem Owned.isHeld_iff_token (howned : ledger.Owned) (hregular : ledger.Regular) :
    ledger.isHeld source = true ↔ ∃ token ∈ ledger.tokens, token.source = source := by
  rw [isHeld_iff hregular.held]
  constructor
  · intro hne
    obtain ⟨hold, rest, hlist⟩ := List.exists_cons_of_ne_nil hne
    obtain ⟨token, ht, -, hsource, -⟩ := howned.owner source hold (by simp [hlist])
    exact ⟨token, ht, hsource⟩
  · rintro ⟨token, ht, rfl⟩ hnil
    have hentered := hregular.entered token ht
    rw [hnil] at hentered
    cases hentered

/-! ### Ending all tokens -/

theorem tokens_finish (ledger : Ledger) (key : Binding) :
    (ledger.finish key).2.tokens = ledger.tokens.filter (·.key != key) := by
  rcases finish_cases ledger key with ⟨hnone, hsame⟩ | ⟨token, -, htokens, -⟩
  · rw [hsame, filter_tokens_of_token?_eq_none hnone]
  · exact htokens

theorem tokens_finishAll (ledger : Ledger) (keys : List Binding) :
    (ledger.finishAll keys).2.tokens = ledger.tokens.filter (·.key ∉ keys) := by
  induction keys generalizing ledger with
  | nil => simp [finishAll]
  | cons key keys ih =>
      show ((ledger.finish key).2.finishAll keys).2.tokens = _
      rw [ih, tokens_finish, List.filter_filter]
      apply List.filter_congr
      intro token _
      by_cases hkey : token.key = key <;> simp [hkey]

/-- Without live tokens nothing is held. -/
theorem Owned.isEmpty (howned : ledger.Owned) (hregular : ledger.Regular)
    (hnone : ledger.tokens = []) : ledger.isEmpty = true := by
  have hholds : ledger.holds = [] := by
    rw [List.eq_nil_iff_forall_not_mem]
    intro entry he
    have hheld : ledger.isHeld entry.1 = true := List.any_eq_true.2 ⟨entry, he, by simp⟩
    obtain ⟨token, ht, -⟩ := (howned.isHeld_iff_token hregular).1 hheld
    rw [hnone] at ht
    cases ht
  rw [Ledger.isEmpty, hnone, hholds]
  rfl

/-- Once all live tokens have ended, in any order, the ledger is empty. -/
theorem Owned.isEmpty_finishAll (howned : ledger.Owned) (hregular : ledger.Regular)
    {keys : List Binding} (hall : keys.Perm (ledger.tokens.map (·.key))) :
    (ledger.finishAll keys).2.isEmpty = true := by
  refine (howned.finishAll hregular keys).isEmpty (hregular.finishAll keys) ?_
  rw [tokens_finishAll, List.filter_eq_nil_iff]
  intro token ht
  have hin : token.key ∈ keys := hall.mem_iff.2 (List.mem_map_of_mem ht)
  simpa using hin

/-! ### Sequences of calls -/

/-- What can be asked of a ledger. -/
inductive Call where
  | begin (source : Binding) (name : String) (access : Access) (depth : Nat) (span : Span)
  | finish (key : Binding)
  | retire (depth : Nat)

/-- What a call does. The tokens of a scope that is closed end in any order. -/
inductive Performs (ledger : Ledger) : Call → Ledger → Prop
  | begun {source : Binding} {name : String} {access : Access} {depth : Nat} {span : Span} :
      Performs ledger (.begin source name access depth span)
        (ledger.begin source name access depth span).2
  | finished {key : Binding} : Performs ledger (.finish key) (ledger.finish key).2
  | retired {depth : Nat} {keys : List Binding}
      (h : keys.Perm ((ledger.tokens.map (·.key)).filter (depth ≤ ·.depth))) :
      Performs ledger (.retire depth) (ledger.finishAll keys).2

/-- A new token does not have the name and depth of one that is alive. -/
def Call.IsNew (ledger : Ledger) : Call → Prop
  | .begin _ name _ depth _ => ledger.token? ⟨name, depth⟩ = none
  | .finish _ | .retire _ => True

/-- The ledgers that allowed calls lead to from the empty one. -/
inductive Reached (allowed : Ledger → Call → Prop) : Ledger → Prop
  | empty : Reached allowed {}
  | call {ledger after : Ledger} {call : Call} (hledger : Reached allowed ledger)
      (hallowed : allowed ledger call) (hcall : Performs ledger call after) : Reached allowed after

theorem Regular.performs {call : Call} (hregular : ledger.Regular)
    (h : Performs ledger call after) : after.Regular := by
  cases h with
  | begun =>
      rename_i source name access depth span
      rcases begin_cases ledger source name access depth span with ⟨violation, h⟩ | ⟨key, opened, h⟩
      · exact h ▸ hregular
      · exact h ▸ hregular.begin h
  | finished => exact hregular.finish _
  | retired => exact hregular.finishAll _

theorem Owned.performs {call : Call} (howned : ledger.Owned) (hregular : ledger.Regular)
    (hnew : call.IsNew ledger) (h : Performs ledger call after) : after.Owned := by
  cases h with
  | begun =>
      rename_i source name access depth span
      rcases begin_cases ledger source name access depth span with ⟨violation, h⟩ | ⟨key, opened, h⟩
      · exact h ▸ howned
      · obtain ⟨rfl, -, -⟩ := begin_eq_ok h
        exact h ▸ howned.begin h hnew
  | finished => exact howned.finish hregular _
  | retired => exact howned.finishAll hregular _

theorem Reached.regular {allowed : Ledger → Call → Prop} (h : Reached allowed ledger) :
    ledger.Regular := by
  induction h with
  | empty => exact regular_empty
  | call _ _ hcall ih => exact ih.performs hcall

theorem Reached.owned (h : Reached (fun ledger call => call.IsNew ledger) ledger) :
    ledger.Owned := by
  induction h with
  | empty => exact owned_empty
  | call hledger hnew hcall ih => exact ih.performs hledger.regular hnew hcall

/-- After any calls, a variable that is listed is held, by one access or by accesses that all observe
it; every live token has its access; and what is refused changes nothing. If no call takes the name
and depth of a live token, then the variables that are held are those of the live tokens, every
access belongs to exactly one of these, and ending all of them in any order leaves nothing. -/
theorem calls_keep_exclusive :
    (∀ ledger, Reached (fun _ _ => True) ledger →
      (∀ source list, ledger.holds.lookup source = some list →
        list ≠ [] ∧ (1 < list.length → ∀ hold ∈ list, hold.access = .observing)) ∧
      (∀ token ∈ ledger.tokens, ⟨token.key, token.access⟩ ∈ ledger.holdsOf token.source) ∧
      ∀ source name access depth span,
        (∃ violation, (ledger.begin source name access depth span).1 = .error violation) →
          ∀ after, Performs ledger (.begin source name access depth span) after → after = ledger) ∧
    ∀ ledger, Reached (fun ledger call => call.IsNew ledger) ledger →
      (∀ source, ledger.isHeld source = true ↔ ∃ token ∈ ledger.tokens, token.source = source) ∧
      (∀ source, ((ledger.holdsOf source).map (·.token)).Nodup ∧
        ∀ hold ∈ ledger.holdsOf source, ∃! token, token ∈ ledger.tokens ∧
          token.key = hold.token ∧ token.source = source ∧ token.access = hold.access) ∧
      ∀ keys, keys.Perm (ledger.tokens.map (·.key)) →
        (ledger.finishAll keys).2.isEmpty = true := by
  refine ⟨fun ledger hreached => ?_, fun ledger hreached => ?_⟩
  · have hregular := hreached.regular
    refine ⟨?_, hregular.entered, ?_⟩
    · intro source list hlookup
      have hlist : ledger.holdsOf source = list := by rw [holdsOf, hlookup]; rfl
      obtain ⟨front, back, hsplit, -⟩ := List.lookup_eq_some_iff.1 hlookup
      refine ⟨hregular.held (source, list) (by simp [hsplit]), ?_⟩
      rw [← hlist]
      exact hregular.shared source
    · rintro source name access depth span ⟨violation, herror⟩ after hperforms
      cases hperforms
      rcases begin_cases ledger source name access depth span with ⟨_, h⟩ | ⟨key, opened, h⟩
      · rw [h]
      · rw [h] at herror
        cases herror
  · have hregular := hreached.regular
    have howned := hreached.owned
    refine ⟨fun source => howned.isHeld_iff_token hregular, fun source => ?_,
      fun keys hall => howned.isEmpty_finishAll hregular hall⟩
    refine ⟨howned.once source, fun hold hmem => ?_⟩
    obtain ⟨token, ht, hfacts⟩ := howned.owner source hold hmem
    refine ⟨token, ⟨ht, hfacts⟩, ?_⟩
    rintro other ⟨hother, hkey, -⟩
    exact List.inj_on_of_nodup_map hregular.keys hother ht (hkey.trans hfacts.1.symm)

/-- Two tokens observe one variable. -/
def observed : Ledger where
  tokens := [⟨⟨"a", 2⟩, ⟨"s", 1⟩, .observing, {}⟩, ⟨⟨"b", 3⟩, ⟨"s", 1⟩, .observing, {}⟩]
  holds := [(⟨"s", 1⟩, [⟨⟨"a", 2⟩, .observing⟩, ⟨⟨"b", 3⟩, .observing⟩])]

/-- Both have been entered, and an exclusive lock is refused. -/
theorem reached_observed {allowed : Ledger → Call → Prop}
    (h : ∀ ledger call, call.IsNew ledger → allowed ledger call) : Reached allowed observed := by
  have hfirst : Reached allowed _ :=
    .call .empty (h {} (.begin ⟨"s", 1⟩ "a" .observing 2 {}) rfl) .begun
  have hsecond : Reached allowed observed :=
    .call hfirst (h _ (.begin ⟨"s", 1⟩ "b" .observing 3 {}) rfl) .begun
  exact .call hsecond (h _ (.begin ⟨"s", 1⟩ "c" .seizing 4 {}) rfl) .begun

/-- In particular the two tokens may end in the order in which they began. -/
theorem calls_keep_exclusive_observed :
    Reached (fun _ _ => True) observed ∧ Reached (fun ledger call => call.IsNew ledger) observed ∧
      (∀ hold ∈ observed.holdsOf ⟨"s", 1⟩, hold.access = .observing) ∧
      observed.isHeld ⟨"s", 1⟩ = true ∧
      (observed.finishAll [⟨"a", 2⟩, ⟨"b", 3⟩]).2.isEmpty = true := by
  have hany : Reached (fun _ _ => True) observed := reached_observed fun _ _ _ => trivial
  have hnew : Reached (fun ledger call => call.IsNew ledger) observed :=
    reached_observed fun _ _ h => h
  obtain ⟨hlists, -, -⟩ := calls_keep_exclusive.1 observed hany
  obtain ⟨hheld, -, hempty⟩ := calls_keep_exclusive.2 observed hnew
  refine ⟨hany, hnew, (hlists ⟨"s", 1⟩ _ rfl).2 (by decide), (hheld ⟨"s", 1⟩).2 ?_, ?_⟩
  · exact ⟨_, List.mem_cons_self, rfl⟩
  · exact hempty _ (.refl _)

end Custody.Ledger
