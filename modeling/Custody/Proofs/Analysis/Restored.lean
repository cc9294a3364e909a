import Custody.Proofs.Check.Visit

/-! Whichever way a check ends, it restores what it has opened. -/

namespace Custody

/-- `after` is `before` with the states of variables changed and up to `added` more symbols in the
innermost scope. What has been reported may differ. -/
structure State.Restored (added : Nat) (before after : State) : Prop where
  depth : after.depth = before.depth
  ledger : after.ledger = before.ledger
  modes : after.modes = before.modes
  loops : after.loops = before.loops
  result : after.result = before.result
  outer : ∀ depth, depth < before.depth → ∃ scope changed, before.table.scope? depth = some scope ∧
    after.table.scope? depth = some changed ∧ List.Forall₂ Symbol.Similar scope changed
  current : ∃ kept new, after.table.current = kept ++ new ∧ new.length ≤ added ∧
    List.Forall₂ Symbol.Similar before.table.current kept

theorem State.Kept.restored {added : Nat} {before after : State}
    (h : Kept Symbol.Similar added before after) : Restored added before after where
  depth := h.depth_eq
  ledger := h.ledger
  modes := h.modes
  loops := h.loops
  result := h.result
  outer _ hdepth := h.table.scope? hdepth
  current := by
    obtain ⟨kept, new, hcurrent, hadded, -, hkept⟩ := h.table.current
    exact ⟨kept, new, hcurrent, hadded, hkept⟩

namespace Linked

open Check

/-- The state in which an analysis ends. -/
def final (linked : Linked) (settings : Settings) : State :=
  (checkLinked settings.toleratesMissingPrelude linked (linked.env settings) initial).2

/-- The check of the items of a program leaves no more than symbols and diagnostics. -/
theorem kept_final (settings : Settings) (linked : Linked) :
    AtSome (State.Kept Symbol.Revised) (linked.start settings) (linked.final settings) := by
  rw [final, checkLinked_eq]
  obtain ⟨n, hkeeping⟩ := (checkItems_keeps declFrame_keeping linked.items
    (linked.start settings)).left
  exact ⟨n, hkeeping (sound_start settings linked)⟩

/-- An analysis ends in the scope of the program, with nothing open. -/
theorem final_restored (settings : Settings) (linked : Linked) :
    (linked.final settings).depth = 1 ∧ (linked.final settings).ledger = {} ∧
      (linked.final settings).modes = {} ∧
      ∀ diagnostic ∈ (linked.final settings).diagnostics, diagnostic.fault.OfProgram := by
  obtain ⟨m, hstart⟩ := kept_loadPrelude settings linked
  obtain ⟨n, hfinal⟩ := kept_final settings linked
  obtain ⟨loading, hloading, hblame⟩ := hstart.diagnostics
  obtain ⟨checking, hchecking, hblame'⟩ := hfinal.diagnostics
  have hall : (linked.final settings).diagnostics = loading ++ checking := by
    rw [hchecking, start, State.openScope, hloading]
    rfl
  refine ⟨?_, hfinal.ledger.trans hstart.ledger, hfinal.modes.trans hstart.modes, ?_⟩
  · rw [hfinal.depth_eq]
    exact congrArg (· + 1) hstart.depth_eq
  · rw [hall]
    exact List.forall_mem_append.2 ⟨hblame, hblame'⟩

/-- Checking a statement or an expression restores the state it starts in, whether or not it is cut
short. An analysis ends where it has begun, and it never finds a fault in itself. -/
theorem checks_restore_state (settings : Settings) (linked : Linked) :
    (∀ s, Reachable settings linked s →
      (∀ stmt, s.Restored 1 (checkStmt stmt (linked.env settings) s).2) ∧
      ∀ expr use, s.Restored 0 (checkExpr expr use (linked.env settings) s).2) ∧
    (linked.analyze settings).table.depth = 1 ∧
    (linked.final settings).ledger.isEmpty = true ∧
    (linked.final settings).modes.isClear = true ∧
    ∀ diagnostic ∈ (linked.analyze settings).diagnostics, diagnostic.fault.isInternal = false := by
  obtain ⟨hdepth, hledger, hmodes, hblame⟩ := final_restored settings linked
  refine ⟨fun s hs => ⟨fun stmt => ?_, fun expr use => ?_⟩, hdepth, ?_, ?_, hblame⟩
  · exact (kept_checkStmt (linked.env settings) hs.sound stmt).restored
  · have hkept := kept_checkExpr (linked.env settings) hs.sound expr use
    exact (hkept.mono fun _ _ => Symbol.Aged.similar).restored
  · rw [hledger]
    rfl
  · rw [hmodes]
    rfl

/-- In particular a statement that is cut short while `x` is viewed: it uses `x`, which is held. -/
theorem checks_restore_state_viewed : Reachable {} viewing viewed ∧
    (∃ diagnostic,
      (checkStmt (.expr {} (.ident {} "x")) (viewing.env {}) viewed).1 = .error diagnostic) ∧
    viewed.Restored 1 (checkStmt (.expr {} (.ident {} "x")) (viewing.env {}) viewed).2 :=
  ⟨reachable_viewed, ⟨_, rfl⟩, ((checks_restore_state {} viewing).1 viewed reachable_viewed).1 _⟩

end Linked

end Custody
