import Custody.Proofs.Check.Coherent
import Custody.Proofs.Ledger.Calls

/-! The ledger knows bindings by name and depth only, and later scopes use the same names and depths
again. All that it lists is declared where it says so at every point of an analysis, so what is
declared anew is not yet listed. -/

namespace Custody

theorem Symbol.Revised.isVar {a b : Symbol} (h : Revised a b) (ha : a.isVar = true) :
    b.isVar = true := by
  obtain ⟨state, fields, rfl⟩ := h
  rcases a with ⟨name, kind, ty, visibility, depth, span⟩
  cases kind <;> first | rfl | cases ha

/-- The symbol declares this token: it is a variable that cannot be assigned to, holds a token of the
same kind, and stands where the token does. -/
structure Token.DeclaredBy (token : Token) (symbol : Symbol) : Prop where
  kind : ∃ state, symbol.kind = .var false state
  ty : ∃ inner, symbol.ty = .token token.access inner
  span : symbol.span = token.span

theorem Token.DeclaredBy.revised {token : Token} (a b : Symbol) (hrevised : Symbol.Revised a b)
    (h : token.DeclaredBy a) : token.DeclaredBy b := by
  obtain ⟨state, fields, rfl⟩ := hrevised
  obtain ⟨⟨old, hkind⟩, hty, hspan⟩ := h
  rcases a with ⟨name, kind, ty, visibility, depth, span⟩
  obtain rfl : kind = .var false old := hkind
  exact ⟨⟨state, rfl⟩, hty, hspan⟩

/-! ### The invariant -/

namespace State

/-- All that the ledger lists is declared, and each live token in a scope of its own. -/
structure Tracked (s : State) : Prop extends s.Coherent where
  calls : Ledger.Reached (fun ledger call => call.IsNew ledger) s.ledger
  token : ∀ token ∈ s.ledger.tokens, s.table.Binds token.key token.DeclaredBy
  source : ∀ token ∈ s.ledger.tokens, s.table.Binds token.source (·.isVar = true)
  inside : ∀ token ∈ s.ledger.tokens, token.source.depth < token.key.depth
  apart : s.ledger.tokens.Pairwise (·.key.depth ≠ ·.key.depth)

namespace Tracked

variable {s t : State} {key : Binding}

theorem openScope (h : s.Tracked) : s.openScope.Tracked where
  toCoherent := h.toCoherent.openScope
  calls := h.calls
  token token ht := (h.token token ht).push
  source token ht := (h.source token ht).push
  inside := h.inside
  apart := h.apart

theorem kept {added : Nat} (h : s.Tracked) (hkept : Kept Symbol.Revised added s t) : t.Tracked := by
  refine ⟨h.toCoherent.kept hkept, ?_, ?_, ?_, ?_, ?_⟩
  all_goals rw [hkept.ledger]
  · exact h.calls
  · exact fun token ht => (h.token token ht).grown hkept.table Token.DeclaredBy.revised
  · exact fun token ht => (h.source token ht).grown hkept.table fun _ _ => Symbol.Revised.isVar
  · exact h.inside
  · exact h.apart

theorem isHeld_iff (h : s.Tracked) :
    s.ledger.isHeld key = true ↔ ∃ token ∈ s.ledger.tokens, token.source = key :=
  h.calls.owned.isHeld_iff_token h.calls.regular

/-- What is not declared is not listed. -/
theorem not_listed (h : s.Tracked) (hnew : s.table.symbol? key = none) :
    s.ledger.token? key = none ∧ s.ledger.isHeld key = false := by
  constructor
  · refine List.find?_eq_none.2 fun token ht hkey => ?_
    obtain ⟨symbol, hsymbol, -⟩ := h.token token ht
    obtain rfl : token.key = key := by simpa using hkey
    cases hnew.symm.trans hsymbol
  · refine Bool.eq_false_iff.2 fun hheld => ?_
    obtain ⟨token, ht, rfl⟩ := h.isHeld_iff.1 hheld
    obtain ⟨symbol, hsymbol, -⟩ := h.source token ht
    cases hnew.symm.trans hsymbol

theorem holds_depth_le (h : s.Tracked) :
    ∀ entry ∈ s.ledger.holds, entry.1.depth ≤ s.depth := by
  intro entry he
  have hheld : s.ledger.isHeld entry.1 = true := List.any_eq_true.2 ⟨entry, he, by simp⟩
  obtain ⟨token, ht, heq⟩ := h.isHeld_iff.1 hheld
  rw [← heq]
  exact (h.source token ht).depth_le

end Tracked

end State

namespace Check

variable {kind : Access} {source token : Ident} {s t : State} {opened : Option Binding}

/-- The variable of an access is declared outside of the scope of its token. -/
theorem Opened.tracked (h : Opened kind source token s opened t) (hs : s.Tracked) : t.Tracked := by
  have hcoherent := h.coherent hs.toCoherent
  have hgrown := h.grown Symbol.isChange_revised
  have hopen := hs.openScope
  have htoken := fun entry hentry =>
    (hopen.token entry hentry).grown hgrown Token.DeclaredBy.revised
  have hsource := fun entry hentry =>
    (hopen.source entry hentry).grown hgrown fun _ _ => Symbol.Revised.isVar
  cases h with
  | refused inner new hnew => exact ⟨hcoherent, hs.calls, htoken, hsource, hs.inside, hs.apart⟩
  | entered symbol key ledger new hnew hfind hvar hbegin =>
      obtain ⟨rfl, htokens, -⟩ := Ledger.begin_eq_ok hbegin
      have hfresh : s.ledger.Fresh ⟨token.name, s.depth + 1⟩ :=
        hs.sound.fresh (Nat.lt_succ_self s.depth)
      rw [Ledger.filter_tokens_of_fresh hfresh] at htokens
      have hsymbol : s.table.Binds symbol.key (·.isVar = true) :=
        ⟨symbol, hs.aligned.symbol?_key hfind, hvar⟩
      have hperforms : s.ledger.Performs (.begin symbol.key token.name kind (s.depth + 1) token.span)
          ledger := by
        have hafter : ledger =
            (s.ledger.begin symbol.key token.name kind (s.depth + 1) token.span).2 := by rw [hbegin]
        rw [hafter]
        exact .begun
      refine ⟨hcoherent, ?_, ?_, ?_, ?_, ?_⟩
      · refine .call hs.calls ?_ hperforms
        exact List.find?_eq_none.2 fun entry hentry => by simpa using hfresh.tokens entry hentry
      all_goals simp only [htokens]
      · rw [List.forall_mem_append, List.forall_mem_singleton]
        refine ⟨htoken, Symbol.ofToken token kind symbol.ty.strip (s.depth + 1), ?_, ?_⟩
        · exact Table.symbol?_eq_some.2 ⟨_, s.scope?_openToken token kind symbol.ty.strip,
            by simp [Scope.get?, Symbol.ofToken, Symbol.var]⟩
        · exact ⟨⟨.live, rfl⟩, ⟨symbol.ty.strip, rfl⟩, rfl⟩
      · rw [List.forall_mem_append, List.forall_mem_singleton]
        exact ⟨hsource, hsymbol.push.grown hgrown fun _ _ => Symbol.Revised.isVar⟩
      · rw [List.forall_mem_append, List.forall_mem_singleton]
        exact ⟨hs.inside, Nat.lt_succ_of_le hsymbol.depth_le⟩
      · refine List.pairwise_append.2 ⟨hs.apart, List.pairwise_singleton _ _, ?_⟩
        intro entry hentry other hother
        obtain rfl := List.mem_singleton.1 hother
        exact Nat.ne_of_lt (Nat.lt_succ_of_le (hs.sound.tokens entry hentry))

theorem invariant_tracked (env : Env) : Invariant env (Keeping Symbol.Revised) State.Tracked where
  frame := declFrame_keeping
  keep hs h := hs.kept (h hs.sound)
  scope hs := hs.openScope
  access h hs := h.tracked hs
  mode hs := { hs with sound := hs.sound }
  loop hs := { hs with sound := hs.sound }
  routine hs := { hs with sound := hs.sound }

theorem invariant_binds (env : Env) {key : Binding} {p : Symbol → Prop}
    (hp : ∀ a b, Symbol.Revised a b → p a → p b) :
    Invariant env (Keeping Symbol.Revised) fun s => s.Sound ∧ s.table.Binds key p where
  frame := declFrame_keeping
  keep hs h := ⟨(h hs.1).sound hs.1, hs.2.grown (h hs.1).table hp⟩
  scope hs := ⟨hs.1.openScope, hs.2.push⟩
  access h hs := ⟨h.sound hs.1, hs.2.push.grown (h.grown Symbol.isChange_revised) hp⟩
  mode hs := hs
  loop hs := hs
  routine hs := hs

/-- The variables of live tokens are declared already where the piece is checked to which a part
belongs: an access is the first step into its part. -/
theorem Visits.source_declared {env : Env} {task part : Task} {entry : Token}
    (h : Visits env task s part t) (hs : s.Tracked) (hentry : entry ∈ t.ledger.tokens) :
    s.table.Binds entry.source (·.isVar = true) := by
  rcases h.leads with ⟨_, _, _, _, hopened, -⟩ | hleads
  · cases hopened with
    | refused => exact hs.source entry hentry
    | entered symbol key ledger new hnew hfind hvar hbegin =>
        obtain ⟨-, htokens, -⟩ := Ledger.begin_eq_ok hbegin
        rw [htokens, List.mem_append, List.mem_singleton] at hentry
        rcases hentry with hentry | rfl
        · exact hs.source entry (List.mem_filter.1 hentry).1
        · exact ⟨symbol, hs.aligned.symbol?_key hfind, hvar⟩
  · rw [(hleads.surroundings hs.sound).1] at hentry
    exact hs.source entry hentry

/-- A binding in a part is one that was declared before and still the same, or it is new. Then the
ledger has nothing under its name and depth that is older than the binding. -/
theorem Visits.same_or_new {env : Env} {task part : Task} {key : Binding} {symbol : Symbol}
    (h : Visits env task s part t) (hs : s.Tracked) (hsymbol : t.table.symbol? key = some symbol) :
    (∃ before, s.table.symbol? key = some before ∧ Symbol.Revised before symbol) ∨
      s.ledger.token? key = none ∧ s.ledger.isHeld key = false ∧ t.ledger.isHeld key = false ∧
        ∀ entry, t.ledger.token? key = some entry → entry.DeclaredBy symbol := by
  have ht : t.Tracked := (invariant_tracked env).visits h hs
  cases hbefore : s.table.symbol? key with
  | some before =>
      have hbinds : s.table.Binds key (Symbol.Revised before) :=
        ⟨before, hbefore, Symbol.isChange_revised.refl before⟩
      have inv : Invariant env (Keeping Symbol.Revised) fun u =>
          u.Sound ∧ u.table.Binds key (Symbol.Revised before) :=
        invariant_binds env fun _ _ hab hbefore => hbefore.trans hab
      obtain ⟨-, after, hafter, hrevised⟩ := inv.visits h ⟨hs.sound, hbinds⟩
      cases hsymbol.symm.trans hafter
      exact .inl ⟨before, rfl, hrevised⟩
  | none =>
      obtain ⟨htoken, hheld⟩ := hs.not_listed hbefore
      refine .inr ⟨htoken, hheld, Bool.eq_false_iff.2 fun hheld => ?_, fun entry hentry => ?_⟩
      · obtain ⟨entry, hentry, rfl⟩ := ht.isHeld_iff.1 hheld
        obtain ⟨before, hdeclared, -⟩ := h.source_declared hs hentry
        cases hbefore.symm.trans hdeclared
      · obtain ⟨declared, hdeclared, hby⟩ := ht.token entry (List.mem_of_find?_eq_some hentry)
        obtain rfl : entry.key = key := by simpa using List.find?_some hentry
        cases hsymbol.symm.trans hdeclared
        exact hby

end Check

namespace Linked

open Check

variable {settings : Settings} {linked : Linked} {s : State}

theorem tracked_start (settings : Settings) (linked : Linked) :
    (linked.start settings).Tracked := by
  obtain ⟨n, hkept⟩ := kept_loadPrelude settings linked
  have hcoherent := coherent_start settings linked
  have hledger : (linked.start settings).ledger = {} := hkept.ledger
  refine ⟨hcoherent, ?_, ?_, ?_, ?_, ?_⟩
  all_goals rw [hledger]
  · exact .empty
  · simp
  · simp
  · simp
  · exact .nil

theorem Reachable.tracked (h : Reachable settings linked s) : s.Tracked :=
  h.of_invariant (invariant_tracked _) (tracked_start settings linked)

/-- Whenever a piece of a program is checked, each live token is declared under its name and depth and
so is its variable, further out; no two live tokens are declared at one depth, and nothing in the
ledger is deeper than the innermost scope. What a part declares anew is not listed in the ledger, but
for the token of the access that the part stands under. -/
theorem ledger_matches_table (settings : Settings) (linked : Linked) :
    (∀ s, Reachable settings linked s →
      (∀ token ∈ s.ledger.tokens, s.table.Binds token.key token.DeclaredBy ∧
        token.source.depth < token.key.depth ∧ s.table.Binds token.source (·.isVar = true)) ∧
      s.ledger.tokens.Pairwise (·.key.depth ≠ ·.key.depth) ∧
      (∀ token ∈ s.ledger.tokens, token.key.depth ≤ s.depth ∧ token.source.depth ≤ s.depth) ∧
      ∀ entry ∈ s.ledger.holds, entry.1.depth ≤ s.depth ∧
        ∀ hold ∈ entry.2, hold.token.depth ≤ s.depth) ∧
    ∀ task s part t, Visited settings linked task s → Visits (linked.env settings) task s part t →
      ∀ key symbol, t.table.symbol? key = some symbol →
        (∃ before, s.table.symbol? key = some before ∧ Symbol.Revised before symbol) ∨
        s.ledger.token? key = none ∧ s.ledger.isHeld key = false ∧ t.ledger.isHeld key = false ∧
          ∀ token, t.ledger.token? key = some token → token.DeclaredBy symbol := by
  refine ⟨fun s hs => ?_, fun task s part t htask hpart key symbol hsymbol => ?_⟩
  · have htracked := hs.tracked
    refine ⟨fun token ht => ?_, htracked.apart, fun token ht => ?_, fun entry he => ?_⟩
    · exact ⟨htracked.token token ht, htracked.inside token ht, htracked.source token ht⟩
    · exact ⟨(htracked.token token ht).depth_le, (htracked.source token ht).depth_le⟩
    · exact ⟨htracked.holds_depth_le entry he, htracked.sound.holds entry he⟩
  · have htracked := Reachable.tracked ⟨task, htask⟩
    exact hpart.same_or_new htracked hsymbol

/-- In particular where `x` is viewed as `v`, and on the way there. -/
theorem ledger_matches_table_viewed :
    Reachable {} viewing viewed ∧
      viewed.table.Binds ⟨"v", 3⟩ (Token.DeclaredBy ⟨⟨"v", 3⟩, ⟨"x", 2⟩, .viewing, {}⟩) ∧
      viewed.table.Binds ⟨"x", 2⟩ (·.isVar = true) ∧
      ∃ task s part, Visited {} viewing task s ∧ Visits (viewing.env {}) task s part viewed ∧
        s.ledger.token? ⟨"v", 3⟩ = none ∧ viewed.ledger.isHeld ⟨"v", 3⟩ = false := by
  obtain ⟨hreachable, hvisited⟩ := ledger_matches_table {} viewing
  obtain ⟨htokens, -⟩ := hreachable viewed reachable_viewed
  obtain ⟨htoken, -, hsource⟩ := htokens _ List.mem_cons_self
  have hopens : ∃ task s part, Visited {} viewing task s ∧
      Visits (viewing.env {}) task s part viewed ∧ s.table.symbol? ⟨"v", 3⟩ = none :=
    ⟨_, _, _, .visit (.visit (.visit .start (.routineBody rfl rfl rfl)) (.otherStmts rfl)) .firstStmt,
      .accessBody rfl, rfl⟩
  obtain ⟨task, s, part, htask, hpart, hnone⟩ := hopens
  refine ⟨reachable_viewed, htoken, hsource, task, s, part, htask, hpart, ?_⟩
  rcases hvisited task s part viewed htask hpart ⟨"v", 3⟩ _ rfl with ⟨before, hbefore, -⟩ | hnew
  · cases hnone.symm.trans hbefore
  · exact ⟨hnew.1, hnew.2.2.1⟩

end Linked

end Custody
