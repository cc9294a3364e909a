import Custody.Proofs.Check.Coherent

/-! Tokens that are handed on through inline accesses. An expression can hand on the value of a name
that stands behind parentheses and inline accesses. An inline access checks its body for being kept
right outside of it, whatever becomes of its own value, so only the innermost of the accesses in
front of the name has a say in whether a token may pass. -/

namespace Custody

namespace Expr

/-- The name whose value the expression hands on. -/
def carrier : Expr → Option String
  | ident _ name => some name
  | paren _ inner => inner.carrier
  | access _ _ _ _ body => body.carrier
  | _ => none

/-- The number of inline accesses in front of the name whose value is handed on. -/
def accesses : Expr → Nat
  | paren _ inner => inner.accesses
  | access _ _ _ _ body => body.accesses + 1
  | _ => 0

/-- The use for which that name is checked if the expression is checked for `use` at `depth`. -/
def carriedUse (expr : Expr) (use : Use) (depth : Nat) : Use :=
  match expr.accesses with
  | 0 => use
  | passed + 1 => .store (depth + passed)

/-- An inline access asks that what it hands on is kept right outside of it. -/
theorem carriedUse_access (span : Span) (kind : Access) (source token : Ident) (body : Expr)
    (use : Use) (depth : Nat) : (access span kind source token body).carriedUse use depth =
      body.carriedUse (.store depth) (depth + 1) := by
  unfold carriedUse
  rw [accesses]
  cases body.accesses with
  | zero => rfl
  | succ passed =>
      simp only [Use.store.injEq]
      omega

end Expr

namespace Check

/-- Opens the accesses in front of the name whose value an expression hands on. -/
def approach : Expr → Check Unit
  | .paren _ inner => approach inner
  | .access span kind source token body => do
      let _ ← openAccess span kind source token
      approach body
  | _ => return

/-- The state at the place of the name whose value an expression hands on. -/
def place (expr : Expr) (env : Env) (s : State) : State :=
  (approach expr env s).2

/-- The check of an expression gives a type and reports nothing. -/
def Accepts (env : Env) (expr : Expr) (use : Use) (s : State) : Prop :=
  (∃ ty, (checkExpr expr use env s).1 = .ok ty) ∧
    (checkExpr expr use env s).2.diagnostics = s.diagnostics

variable {env : Env} {s t u : State} {kind : Access} {source token : Ident}
  {opened : Option Binding}

theorem place_access {span : Span} {body : Expr}
    (hopen : openAccess span kind source token env s = (.ok opened, t)) :
    place (.access span kind source token body) env s = place body env t := by
  rw [place, approach, bind_apply, hopen]
  rfl

/-! ### The way to the name -/

/-- What the accesses in front of a name leave: their scopes, their tokens and their reports. -/
structure Approached (passed : Nat) (s t : State) : Prop where
  coherent : t.Coherent
  depth : t.depth = s.depth + passed
  modes : t.modes = s.modes
  diagnostics : s.diagnostics <+: t.diagnostics

theorem Opened.approached (h : Opened kind source token s opened t) (hs : s.Coherent) :
    Approached 1 s t := by
  refine ⟨h.coherent hs, h.depth_eq, ?_, h.diagnostics_le⟩
  cases h <;> rfl

theorem Approached.trans {m n : Nat} (hst : Approached m s t) (htu : Approached n t u) :
    Approached (m + n) s u := by
  refine ⟨htu.coherent, ?_, htu.modes.trans hst.modes, hst.diagnostics.trans htu.diagnostics⟩
  rw [htu.depth, hst.depth, Nat.add_assoc]

theorem approached_place {name : String} {expr : Expr} (hcarrier : expr.carrier = some name)
    (hs : s.Coherent) : Approached expr.accesses s (place expr env s) := by
  induction expr using Expr.carrier.induct generalizing s with
  | case1 span found => exact ⟨hs, rfl, rfl, List.prefix_refl _⟩
  | case2 span inner ih => exact ih hcarrier hs
  | case3 span kind source token body ih =>
      obtain ⟨opened, t, hopen, hopened⟩ := openAccess_opens span kind source token env s
      have hfirst := hopened.approached hs
      rw [place_access hopen, Expr.accesses, Nat.add_comm]
      exact hfirst.trans (ih hcarrier hfirst.coherent)
  | case4 expr hident hparen haccess =>
      rw [Expr.carrier] at hcarrier
      · cases hcarrier
      · exact hident
      · exact hparen
      · exact haccess

/-! ### What is accepted -/

theorem diagnostics_closeScope {depth : Nat} (h : 0 < s.depth) :
    (s.closeScope depth).diagnostics = s.diagnostics := by
  rcases s with ⟨⟨root, inner⟩, ledger, modes, loops, result, diagnostics⟩
  cases inner with
  | nil => cases h
  | cons scope outer => rfl

/-- An access reports nothing if opening it does not and the check under it does not. -/
theorem accepts_access {span : Span} {body : Expr} {use : Use} (hs : s.Coherent)
    (hopen : openAccess span kind source token env s = (.ok opened, t))
    (hopened : Opened kind source token s opened t) :
    Accepts env (.access span kind source token body) use s ↔
      t.diagnostics = s.diagnostics ∧ Accepts env body (.store s.depth) t := by
  have hrun : checkExpr (.access span kind source token body) use env s =
      ((checkExpr body (.store s.depth) env t).1,
        (endAccess opened (checkExpr body (.store s.depth) env t).2).closeScope (s.depth + 1)) := by
    rw [checkExpr]
    exact withAccess_apply hopen _
  have hkept := kept_checkExpr env (hopened.sound hs.sound) body (.store s.depth)
  have hclose : ((endAccess opened (checkExpr body (.store s.depth) env t).2).closeScope
      (s.depth + 1)).diagnostics = (checkExpr body (.store s.depth) env t).2.diagnostics := by
    have hdepth := hkept.depth_eq
    rw [hopened.depth_eq] at hdepth
    rw [diagnostics_closeScope]
    · exact diagnostics_endAccess _ _
    · cases opened <;> exact hdepth ▸ Nat.succ_pos s.depth
  obtain ⟨new, hnew, -⟩ := hkept.diagnostics
  unfold Accepts
  rw [hrun, hclose, eq_iff_of_prefixes hopened.diagnostics_le ⟨new, hnew.symm⟩]
  tauto

/-- A name behind accesses is accepted if opening them reports nothing and the name may be used as
the innermost of them asks. -/
theorem accepts_iff {name : String} {expr : Expr} {symbol : Symbol} (use : Use)
    (hs : s.Coherent) (hcarrier : expr.carrier = some name)
    (hfind : (place expr env s).table.find? name = some symbol) (hvar : symbol.isVar = true) :
    Accepts env expr use s ↔ (place expr env s).diagnostics = s.diagnostics ∧
      (place expr env s).checkUse symbol (expr.carriedUse use s.depth) = .ok () := by
  induction expr using Expr.carrier.induct generalizing s use with
  | case1 span found =>
      cases hcarrier
      have hhere : s.table.find? name = some symbol := hfind
      unfold Accepts
      rw [checkExpr, checkIdent_of_isVar use span hhere hvar]
      change _ ↔ s.diagnostics = s.diagnostics ∧ s.checkUse symbol use = .ok ()
      cases s.checkUse symbol use <;> simp
  | case2 span inner ih =>
      unfold Accepts
      rw [checkExpr]
      exact ih use hs hcarrier hfind
  | case3 span kind source token body ih =>
      obtain ⟨opened, t, hopen, hopened⟩ := openAccess_opens span kind source token env s
      have happroached := hopened.approached hs
      rw [place_access hopen] at hfind ⊢
      have hbody : Approached body.accesses t (place body env t) :=
        approached_place hcarrier happroached.coherent
      rw [accepts_access hs hopen hopened, ih (.store s.depth) happroached.coherent hcarrier hfind,
        eq_iff_of_prefixes happroached.diagnostics hbody.diagnostics, and_assoc,
        Expr.carriedUse_access, happroached.depth]
  | case4 expr hident hparen haccess =>
      rw [Expr.carrier] at hcarrier
      · cases hcarrier
      · exact hident
      · exact hparen
      · exact haccess

end Check

theorem Ledger.checkTokenUse_le {name : String} {access : Access} {tokenDepth depth : Nat}
    {use : Use} {usurping : Bool}
    (h : checkTokenUse name access tokenDepth depth use usurping = .ok ()) : tokenDepth ≤ depth := by
  unfold checkTokenUse at h
  split at h
  · cases h
  · omega

theorem Ledger.checkTokenUse_store {name : String} {access : Access} {tokenDepth depth : Nat}
    {usurping : Bool} : checkTokenUse name access tokenDepth (depth + 1) (.store depth) usurping =
      .ok () ↔ tokenDepth < depth + 1 := by
  unfold checkTokenUse
  split
  · simp
    omega
  · simp only
    split
    · simp
      omega
    · simp
      omega

/-- The rules for tokens accept this use of a token in the state `s`. -/
def State.AcceptsToken (s : State) (symbol : Symbol) (kind : Access) (use : Use) : Prop :=
  Ledger.checkTokenUse symbol.name kind symbol.depth s.depth use (s.modes.isActive .usurping) =
    .ok ()

/-- At the place of a name behind accesses, only the innermost of them has a say. -/
theorem Check.Approached.acceptsToken_iff {expr : Expr} {s t : State}
    (h : Approached expr.accesses s t) (symbol : Symbol) (kind : Access) (use : Use) :
    t.AcceptsToken symbol kind (expr.carriedUse use s.depth) ↔
      if expr.accesses = 0 then s.AcceptsToken symbol kind use
      else symbol.depth < s.depth + expr.accesses := by
  have hdepth := h.depth
  unfold State.AcceptsToken Expr.carriedUse
  rw [hdepth, h.modes]
  cases expr.accesses with
  | zero => rfl
  | succ passed =>
      rw [if_neg (Nat.succ_ne_zero passed), ← Nat.add_assoc]
      exact Ledger.checkTokenUse_store

namespace Linked

open Check

variable {settings : Settings} {linked : Linked} {s : State}

/-- A token is handed on without complaint if and only if nothing is wrong with the accesses in front
of its name, the variable has its value and is not held, and the rules allow it. Without accesses
these are the rules for the use of the expression. Otherwise they only ask that the token does not
belong to the innermost of the accesses, so behind a single access it is declared outside. -/
theorem carried_token_accepted_iff {expr : Expr} {use : Use} {name : String} {symbol : Symbol}
    {kind : Access} (hs : Reachable settings linked s) (hcarrier : expr.carrier = some name)
    (hfind : (place expr (linked.env settings) s).table.find? name = some symbol)
    (hkind : symbol.access? = some kind) :
    (Accepts (linked.env settings) expr use s ↔
      (place expr (linked.env settings) s).diagnostics = s.diagnostics ∧
      symbol.isMoved = false ∧
      (place expr (linked.env settings) s).ledger.isHeld symbol.key = false ∧
      if expr.accesses = 0 then s.AcceptsToken symbol kind use
      else symbol.depth < s.depth + expr.accesses) ∧
    (Accepts (linked.env settings) expr use s →
      (expr.accesses ≤ 1 → symbol.depth ≤ s.depth) ∧
      (expr.accesses = 0 → s.AcceptsToken symbol kind use)) := by
  have hplace : Approached expr.accesses s (place expr (linked.env settings) s) :=
    approached_place hcarrier hs.coherent
  have hvar : symbol.isVar = true := by
    by_contra hvar
    simp [Symbol.access?, hvar] at hkind
  have hiff := accepts_iff use hs.coherent hcarrier hfind hvar
  rw [hplace.coherent.checkUse_token hfind hkind] at hiff
  have hrule := hplace.acceptsToken_iff symbol kind use
  unfold State.AcceptsToken at hrule ⊢
  rw [hrule] at hiff
  refine ⟨hiff, fun haccepts => ?_⟩
  obtain ⟨-, -, -, hallowed⟩ := hiff.1 haccepts
  by_cases hzero : expr.accesses = 0
  · rw [if_pos hzero] at hallowed
    exact ⟨fun _ => Ledger.checkTokenUse_le hallowed, fun _ => hallowed⟩
  · rw [if_neg hzero] at hallowed
    refine ⟨fun hone => ?_, fun h => absurd h hzero⟩
    omega

/-! ### A token that outlives its access -/

/-- `viewing x as v => (viewing y as w => v)` -/
def nested : Expr :=
  .access {} .viewing ⟨"x", {}⟩ ⟨"v", {}⟩
    (.paren {} (.access {} .viewing ⟨"y", {}⟩ ⟨"w", {}⟩ (.ident {} "v")))

/-- A program with a routine of two numbers `x` and `y` that keeps the value of `nested`. -/
def handing : Linked where
  prelude := []
  items := [.decl (.routine {
    span := {}
    name := ⟨"f", {}⟩
    params := [⟨⟨"x", {}⟩, .named {} ⟨"s32", {}⟩ []⟩, ⟨⟨"y", {}⟩, .named {} ⟨"s32", {}⟩ []⟩]
    result := none
    body := some [.var {} { name := ⟨"z", {}⟩, mutable := false, init := some nested }] })]

/-- The state in which the body of the routine in `handing` is checked. -/
def handingStart : State :=
  let number (name : String) : Symbol := { Symbol.var name (.num .s32) false {} with depth := 2 }
  let f : Symbol :=
    { Symbol.routine "f" (.routine [.num .s32, .num .s32] .blank) false {} with depth := 1 }
  { table := { root := Table.builtins, inner := [[number "x", number "y"], [f]] }
    result := some .blank }

/-- The token of the outer access in `nested`. -/
def handedToken : Symbol :=
  { Symbol.var "v" (.token .viewing (.num .s32)) false {} with depth := 3 }

theorem find?_nested :
    (place nested (handing.env {}) handingStart).table.find? "v" = some handedToken := rfl

theorem visited_nested :
    Visited {} handing (.expr nested (.store handingStart.depth)) handingStart := by
  have hbody : Visited {} handing
      (.stmts [.var {} { name := ⟨"z", {}⟩, mutable := false, init := some nested }])
      handingStart := .visit .start (.routineBody rfl rfl rfl)
  exact .visit (.visit hbody .firstStmt) (.init rfl rfl)

/-- In particular `nested` is accepted even as the result of a routine that is not usurping. -/
theorem carried_token_accepted_iff_nested :
    Reachable {} handing handingStart ∧ nested.carrier = some "v" ∧
      handedToken.access? = some .viewing ∧
      Accepts (handing.env {}) nested .give handingStart := by
  have hs : Reachable {} handing handingStart := ⟨_, visited_nested⟩
  refine ⟨hs, rfl, rfl, (carried_token_accepted_iff hs rfl find?_nested rfl).1.2 ⟨rfl, rfl, rfl, ?_⟩⟩
  rw [if_neg (by decide)]
  decide

/-- The analysis accepts `nested`, although the token it hands on belongs to an access in it. -/
theorem nested_hands_on_its_token :
    Visited {} handing (.expr nested (.store handingStart.depth)) handingStart ∧
      nested.carrier = some "v" ∧
      (place nested (handing.env {}) handingStart).table.find? "v" = some handedToken ∧
      handedToken.access? = some .viewing ∧
      Accepts (handing.env {}) nested (.store handingStart.depth) handingStart ∧
      ¬(handedToken.depth ≤ handingStart.depth ∧
        handingStart.AcceptsToken handedToken .viewing (.store handingStart.depth)) ∧
      (handing.analyze {}).diagnostics = [] := by
  refine ⟨visited_nested, rfl, find?_nested, rfl, ⟨⟨_, rfl⟩, rfl⟩, ?_, by decide +kernel⟩
  rintro ⟨hdepth, -⟩
  exact absurd hdepth (by decide)

end Linked

end Custody
