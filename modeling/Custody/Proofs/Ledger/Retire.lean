import Custody.Proofs.Ledger.Calls

/-! What the end of a scope does to the ledger. Ending the access of a token takes out what belongs to
the token and nothing else, so ending several in turn comes to taking them all out at once. The order
in which the tokens of a scope end therefore leaves no trace in the ledger; it only decides in which
order they are given back. -/

namespace Custody.Ledger

variable {ledger : Ledger} {source key : Binding} {gone more : Binding → Bool}

/-! ### Taking tokens out -/

/-- The ledger without some tokens and without their accesses. -/
def without (gone : Binding → Bool) (ledger : Ledger) : Ledger where
  tokens := ledger.tokens.filter fun token => !gone token.key
  holds := ledger.holds.filterMap (strip gone)

theorem strip_congr {entry : Binding × List Hold}
    (h : ∀ hold ∈ entry.2, gone hold.token = more hold.token) : strip gone entry = strip more entry := by
  have hfilter : entry.2.filter (fun hold => !gone hold.token) =
      entry.2.filter fun hold => !more hold.token := by
    apply List.filter_congr
    intro hold hmem
    rw [h hold hmem]
  rw [strip, strip, hfilter]

/-- A variable that is held only by other tokens stays as it is. -/
theorem strip_of_free {entry : Binding × List Hold} (hheld : entry.2 ≠ [])
    (hfree : ∀ hold ∈ entry.2, gone hold.token = false) : strip gone entry = some entry := by
  have hfilter : entry.2.filter (fun hold => !gone hold.token) = entry.2 := by
    rw [List.filter_eq_self]
    intro hold hmem
    rw [hfree hold hmem]
    rfl
  rw [strip, hfilter, if_neg hheld]

theorem strip_strip (gone more : Binding → Bool) (entry : Binding × List Hold) :
    (strip gone entry).bind (strip more) = strip (fun key => gone key || more key) entry := by
  have hfilter : (entry.2.filter fun hold => !gone hold.token).filter (fun hold => !more hold.token) =
      entry.2.filter fun hold => !(gone hold.token || more hold.token) := by
    rw [List.filter_filter]
    apply List.filter_congr
    intro hold _
    rw [Bool.not_or, Bool.and_comm]
  cases hstrip : strip gone entry with
  | none =>
      rw [strip_eq_none hstrip, List.filter_nil] at hfilter
      exact (if_pos hfilter.symm).symm
  | some kept =>
      obtain ⟨hsource, hkept, -⟩ := strip_eq_some hstrip
      rw [Option.bind_some, strip, strip, hsource, hkept, hfilter]

theorem without_none (hheld : ∀ entry ∈ ledger.holds, entry.2 ≠ []) :
    ledger.without (fun _ => false) = ledger := by
  have hholds : ledger.holds.filterMap (strip fun _ => false) = ledger.holds := by
    rw [List.filterMap_congr fun entry he => strip_of_free (hheld entry he) fun _ _ => rfl,
      List.filterMap_some]
  rw [without, hholds]
  simp

theorem without_without (gone more : Binding → Bool) (ledger : Ledger) :
    (ledger.without gone).without more = ledger.without fun key => gone key || more key := by
  simp only [without, List.filterMap_filterMap, List.filter_filter, strip_strip, Bool.not_or,
    Bool.and_comm]

/-- Of the accesses to a variable, those of the other tokens are left in their order. -/
theorem holdsOf_without (hsources : (ledger.holds.map (·.1)).Nodup) (gone : Binding → Bool)
    (source : Binding) :
    (ledger.without gone).holdsOf source =
      (ledger.holdsOf source).filter fun hold => !gone hold.token := by
  have hlookup : (ledger.without gone).holds.lookup source =
      (ledger.holds.lookup source).bind fun list => (strip gone (source, list)).map (·.2) :=
    lookup_filterMap (fun _ _ hstrip => (strip_eq_some hstrip).1) hsources source
  rw [holdsOf, hlookup, holdsOf]
  cases ledger.holds.lookup source with
  | none => rfl
  | some list => exact getD_strip gone (source, list)

/-! ### One token after the other -/

theorem holdsOf_of_mem (hsources : (ledger.holds.map (·.1)).Nodup) {entry : Binding × List Hold}
    (he : entry ∈ ledger.holds) : ledger.holdsOf entry.1 = entry.2 := by
  have hlookup : ledger.holds.lookup entry.1 = some entry.2 := by
    rw [List.lookup_eq_some_iff]
    obtain ⟨front, back, hsplit⟩ := List.append_of_mem he
    refine ⟨front, back, hsplit, ?_⟩
    intro other hother
    rw [hsplit, List.map_append, List.nodup_append] at hsources
    have hne := hsources.2.2 other.1 (List.mem_map_of_mem hother) entry.1 (by simp)
    simpa using Ne.symm hne
  rw [holdsOf, hlookup]
  rfl

/-- The accesses that are listed belong to live tokens. -/
theorem Owned.owner_of_mem (howned : ledger.Owned) (hregular : ledger.Regular)
    {entry : Binding × List Hold} (he : entry ∈ ledger.holds) {hold : Hold} (hmem : hold ∈ entry.2) :
    ∃ token ∈ ledger.tokens, token.key = hold.token ∧ token.source = entry.1 := by
  rw [← holdsOf_of_mem hregular.sources he] at hmem
  obtain ⟨token, ht, hkey, hsource, -⟩ := howned.owner entry.1 hold hmem
  exact ⟨token, ht, hkey, hsource⟩

/-- What is taken out is decided by the live tokens alone. -/
theorem Owned.without_congr (howned : ledger.Owned) (hregular : ledger.Regular)
    (h : ∀ token ∈ ledger.tokens, gone token.key = more token.key) :
    ledger.without gone = ledger.without more := by
  have htokens : ledger.tokens.filter (fun token => !gone token.key) =
      ledger.tokens.filter fun token => !more token.key := by
    apply List.filter_congr
    intro token ht
    rw [h token ht]
  have hholds : ledger.holds.filterMap (strip gone) = ledger.holds.filterMap (strip more) := by
    apply List.filterMap_congr
    intro entry he
    apply strip_congr
    intro hold hmem
    obtain ⟨token, ht, hkey, -⟩ := howned.owner_of_mem hregular he hmem
    rw [← hkey, h token ht]
  rw [without, without, htokens, hholds]

/-- Tokens that are not alive have no accesses to take out. -/
theorem Owned.without_of_dead (howned : ledger.Owned) (hregular : ledger.Regular)
    (h : ∀ token ∈ ledger.tokens, gone token.key = false) : ledger.without gone = ledger := by
  have hsame : ledger.without gone = ledger.without fun _ => false :=
    howned.without_congr hregular h
  rw [hsame, without_none hregular.held]

/-- A live token has no access to any variable but its own. -/
theorem Owned.dropHold_eq (howned : ledger.Owned) (hregular : ledger.Regular) {token : Token}
    (hlive : token ∈ ledger.tokens) :
    dropHold token.source token.key ledger.holds =
      ledger.holds.filterMap (strip (· == token.key)) := by
  rw [dropHold_eq_filterMap]
  apply List.filterMap_congr
  intro entry he
  split
  · rfl
  · rename_i hother
    refine (strip_of_free (hregular.held entry he) ?_).symm
    intro hold hmem
    obtain ⟨owner, howner, hkey, hsource⟩ := howned.owner_of_mem hregular he hmem
    rw [beq_eq_false_iff_ne]
    intro heq
    have hsame := List.inj_on_of_nodup_map hregular.keys howner hlive (hkey.trans heq)
    exact hother (hsource.symm.trans (hsame ▸ rfl))

/-- Ending an access takes its token out. -/
theorem Owned.finish_eq_without (howned : ledger.Owned) (hregular : ledger.Regular) (key : Binding) :
    (ledger.finish key).2 = ledger.without (· == key) := by
  rw [Ledger.finish]
  cases htoken : ledger.token? key with
  | none =>
      refine (howned.without_of_dead hregular ?_).symm
      intro token ht
      have hne := List.find?_eq_none.1 htoken token ht
      simpa using hne
  | some token =>
      obtain ⟨hlive, rfl⟩ := (token?_eq_some_iff hregular.keys).1 htoken
      simp only [howned.dropHold_eq hregular hlive]
      rfl

/-- Ending several accesses takes out all of their tokens. -/
theorem Owned.finishAll_eq_without (howned : ledger.Owned) (hregular : ledger.Regular)
    (keys : List Binding) : (ledger.finishAll keys).2 = ledger.without (· ∈ keys) := by
  induction keys generalizing ledger with
  | nil =>
      refine (howned.without_of_dead hregular ?_).symm
      simp
  | cons key keys ih =>
      show ((ledger.finish key).2.finishAll keys).2 = _
      rw [ih (howned.finish hregular key) (hregular.finish key),
        howned.finish_eq_without hregular key, without_without]
      congr 1
      funext other
      by_cases hother : other = key <;> simp [hother]

/-- The live tokens that pass a test may end in any order. -/
theorem Owned.finishAll_eq_of_perm (howned : ledger.Owned) (hregular : ledger.Regular)
    {test : Binding → Bool} {keys : List Binding}
    (hkeys : keys.Perm ((ledger.tokens.map (·.key)).filter test)) :
    (ledger.finishAll keys).2 = ledger.without test := by
  rw [howned.finishAll_eq_without hregular]
  apply howned.without_congr hregular
  intro token ht
  have hlive : token.key ∈ ledger.tokens.map (·.key) := List.mem_map_of_mem ht
  have hmem : token.key ∈ keys ↔ test token.key = true := by
    rw [hkeys.mem_iff, List.mem_filter, and_iff_right hlive]
  rw [Bool.eq_iff_iff, decide_eq_true_iff, hmem]

/-! ### The tokens that are given back -/

theorem ended_finish (ledger : Ledger) (key : Binding) :
    (ledger.finish key).1 = ledger.token? key := by
  unfold finish
  cases ledger.token? key <;> rfl

theorem token?_finish_of_ne {other : Binding} (hne : other ≠ key) :
    (ledger.finish key).2.token? other = ledger.token? other := by
  rw [token?, tokens_finish, List.find?_filter, token?]
  congr 1
  funext token
  by_cases hother : token.key = other <;> simp [hother, hne]

theorem ended_finishAll {keys : List Binding} (hdistinct : keys.Nodup) :
    (ledger.finishAll keys).1 = keys.filterMap ledger.token? := by
  induction keys generalizing ledger with
  | nil => rfl
  | cons key keys ih =>
      obtain ⟨hnot, hrest⟩ := List.nodup_cons.1 hdistinct
      show (ledger.finish key).1.toList ++ ((ledger.finish key).2.finishAll keys).1 = _
      have hothers : keys.filterMap (ledger.finish key).2.token? = keys.filterMap ledger.token? := by
        apply List.filterMap_congr
        intro other hother
        exact token?_finish_of_ne fun heq => hnot (heq ▸ hother)
      rw [ih hrest, hothers, ended_finish]
      cases htoken : ledger.token? key with
      | none => rw [List.filterMap_cons_none htoken]; rfl
      | some token => rw [List.filterMap_cons_some htoken]; rfl

/-- The live tokens of the keys that pass a test are the live tokens whose keys pass it. -/
theorem filterMap_token? (hkeys : (ledger.tokens.map (·.key)).Nodup) (test : Binding → Bool) :
    ((ledger.tokens.map (·.key)).filter test).filterMap ledger.token? =
      ledger.tokens.filter (test ·.key) := by
  rw [List.filter_map, List.filterMap_map]
  calc
    _ = (ledger.tokens.filter (test ∘ (·.key))).filterMap some := by
      apply List.filterMap_congr
      intro token ht
      exact (token?_eq_some_iff hkeys).2 ⟨(List.mem_filter.1 ht).1, rfl⟩
    _ = _ := List.filterMap_some

/-- The tokens that have ended are given back, whatever the order. -/
theorem Regular.ended_finishAll_perm (hregular : ledger.Regular) {test : Binding → Bool}
    {keys : List Binding} (hkeys : keys.Perm ((ledger.tokens.map (·.key)).filter test)) :
    (ledger.finishAll keys).1.Perm (ledger.tokens.filter (test ·.key)) := by
  have hdistinct : keys.Nodup := hkeys.nodup_iff.2 (hregular.keys.filter _)
  rw [ended_finishAll hdistinct, ← filterMap_token? hregular.keys test]
  exact hkeys.filterMap _

/-! ### The end of a scope -/

/-- After any calls that take no live token's place, let the tokens that are declared at `depth` or
deeper end, in any order. Then the live tokens are those that are declared further out. Each variable
keeps the accesses of these, in their order, and is not held if there are none. The tokens that are
given back are those that have ended, and the ledger is the same for every order. -/
theorem retire_in_any_order
    (hreached : Reached (fun ledger call => call.IsNew ledger) ledger) (depth : Nat)
    {keys : List Binding}
    (hkeys : keys.Perm ((ledger.tokens.map (·.key)).filter (depth ≤ ·.depth))) :
    (ledger.finishAll keys).2.tokens = ledger.tokens.filter (·.key.depth < depth) ∧
    (∀ source, (ledger.finishAll keys).2.holdsOf source =
      (ledger.holdsOf source).filter (·.token.depth < depth)) ∧
    (∀ source, (ledger.finishAll keys).2.isHeld source = true ↔
      ∃ hold ∈ ledger.holdsOf source, hold.token.depth < depth) ∧
    (ledger.finishAll keys).1.Perm (ledger.tokens.filter (depth ≤ ·.key.depth)) ∧
    (ledger.finishAll keys).2 = (ledger.retire depth).2 := by
  have hregular := hreached.regular
  have howned := hreached.owned
  have hafter := howned.finishAll_eq_of_perm hregular hkeys
  have hholds : ∀ source, (ledger.finishAll keys).2.holdsOf source =
      (ledger.holdsOf source).filter (·.token.depth < depth) := by
    intro source
    rw [hafter, holdsOf_without hregular.sources]
    simp only [← decide_not, Nat.not_le]
  refine ⟨?_, hholds, ?_, hregular.ended_finishAll_perm hkeys, ?_⟩
  · rw [hafter, without]
    simp only [← decide_not, Nat.not_le]
  · intro source
    rw [isHeld_iff (hregular.finishAll keys).held, hholds, ne_eq, List.filter_eq_nil_iff]
    simp
  · rw [hafter, retire, howned.finishAll_eq_of_perm hregular (.refl _)]

/-- Three tokens observe one variable from scopes of their own, and another variable is hijacked. -/
def crowded : Ledger where
  tokens := [⟨⟨"a", 2⟩, ⟨"s", 1⟩, .observing, {}⟩, ⟨⟨"b", 3⟩, ⟨"s", 1⟩, .observing, {}⟩,
    ⟨⟨"h", 3⟩, ⟨"r", 1⟩, .hijacking, {}⟩, ⟨⟨"c", 4⟩, ⟨"s", 1⟩, .observing, {}⟩]
  holds := [(⟨"s", 1⟩, [⟨⟨"a", 2⟩, .observing⟩, ⟨⟨"b", 3⟩, .observing⟩, ⟨⟨"c", 4⟩, .observing⟩]),
    (⟨"r", 1⟩, [⟨⟨"h", 3⟩, .hijacking⟩])]

theorem reached_crowded {allowed : Ledger → Call → Prop}
    (h : ∀ ledger call, call.IsNew ledger → allowed ledger call) : Reached allowed crowded := by
  have hhijacked : Reached allowed _ :=
    .call (reached_observed h) (h _ (.begin ⟨"r", 1⟩ "h" .hijacking 3 {}) rfl) .begun
  exact .call hhijacked (h _ (.begin ⟨"s", 1⟩ "c" .observing 4 {}) rfl) .begun

/-- The scopes inside the outermost one end. Their tokens go neither in the order in which they began
nor in the reverse. -/
theorem retire_in_any_order_crowded :
    Reached (fun ledger call => call.IsNew ledger) crowded ∧
    (crowded.finishAll [⟨"h", 3⟩, ⟨"c", 4⟩, ⟨"b", 3⟩]).2.tokens =
      [⟨⟨"a", 2⟩, ⟨"s", 1⟩, .observing, {}⟩] ∧
    (crowded.finishAll [⟨"h", 3⟩, ⟨"c", 4⟩, ⟨"b", 3⟩]).2.holdsOf ⟨"s", 1⟩ =
      [⟨⟨"a", 2⟩, .observing⟩] ∧
    ¬(crowded.finishAll [⟨"h", 3⟩, ⟨"c", 4⟩, ⟨"b", 3⟩]).2.isHeld ⟨"r", 1⟩ = true ∧
    (crowded.finishAll [⟨"h", 3⟩, ⟨"c", 4⟩, ⟨"b", 3⟩]).1.Perm (crowded.retire 3).1 ∧
    (crowded.finishAll [⟨"h", 3⟩, ⟨"c", 4⟩, ⟨"b", 3⟩]).2 = (crowded.retire 3).2 := by
  have hkeys : [(⟨"h", 3⟩ : Binding), ⟨"c", 4⟩, ⟨"b", 3⟩].Perm
      ((crowded.tokens.map (·.key)).filter (3 ≤ ·.depth)) := by decide
  have hreached : Reached (fun ledger call => call.IsNew ledger) crowded :=
    reached_crowded fun _ _ h => h
  obtain ⟨htokens, hholds, hheld, hended, hsame⟩ := retire_in_any_order hreached 3 hkeys
  refine ⟨hreached, htokens, hholds ⟨"s", 1⟩, ?_, hended, hsame⟩
  rw [hheld]
  decide

/-- Where a live token's name and depth are taken again, an access may be left without a token. -/
example :
    let first := (({} : Ledger).begin ⟨"s", 1⟩ "t" .hijacking 2 {}).2
    let second := (first.begin ⟨"r", 1⟩ "t" .hijacking 2 {}).2
    (second.retire 2).2.tokens = [] ∧ (second.retire 2).2.isHeld ⟨"s", 1⟩ = true := by
  decide

end Custody.Ledger
