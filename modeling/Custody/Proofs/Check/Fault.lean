import Custody.Check.Rule
import Mathlib.Tactic.SplitIfs

/-! The rules of the analysis blame the program. Only a scope that cannot be closed would be a fault of
the analysis itself. -/

namespace Custody

namespace Fault

/-- The fault is one of the program and not of the analysis. -/
def OfProgram (fault : Fault) : Prop :=
  fault.isInternal = false

/-- A variable is used that has lost its value. -/
def isUseAfterMove : Fault → Bool
  | useAfterMove _ => true
  | _ => false

/-- The language has no such construct. -/
def isUnsupported : Fault → Bool
  | unsupported _ _ => true
  | _ => false

/-- The fault is one of the program, and neither that a value has been moved away nor that the
language lacks a construct. -/
structure Ordinary (fault : Fault) : Prop where
  ofProgram : fault.OfProgram
  notMoved : fault.isUseAfterMove = false
  supported : fault.isUnsupported = false

end Fault

/-- A sequence fails where its first part fails, or else where the rest does. -/
theorem bind_eq_error {ε α β : Type} {first : Except ε α} {next : α → Except ε β} {cause : ε}
    (h : (first >>= next) = .error cause) :
    first = .error cause ∨ ∃ a, first = .ok a ∧ next a = .error cause := by
  cases first with
  | error found =>
      cases h
      exact .inl rfl
  | ok a => exact .inr ⟨a, rfl, h⟩

/-- A sequence succeeds if its parts do, one after the other. -/
theorem exists_of_bind_eq_ok {ε α β : Type} {first : Except ε α} {next : α → Except ε β} {b : β}
    (h : (first >>= next) = .ok b) : ∃ a, first = .ok a ∧ next a = .ok b := by
  cases first with
  | error found => cases h
  | ok a => exact ⟨a, rfl, h⟩

namespace Ty

theorem expect_ordinary {target value : Ty} {fault : Fault}
    (h : target.expect value = .error fault) : fault.Ordinary := by
  unfold expect at h
  split at h
  · cases h
  · cases h
    exact ⟨rfl, rfl, rfl⟩

theorem unifyOperands_ordinary {left right : Ty} {op : BinaryOp} {fault : Fault}
    (h : unifyOperands left op right = .error fault) : fault.Ordinary := by
  unfold unifyOperands at h
  split at h
  · cases h
  · cases h
    exact ⟨rfl, rfl, rfl⟩

theorem operandFault_ordinary (left : Ty) (op : BinaryOp) (right : Ty) :
    (operandFault left op right).Ordinary := by
  unfold operandFault
  split_ifs <;> exact ⟨rfl, rfl, rfl⟩

theorem binaryPlain_ordinary {left right : Ty} {op : BinaryOp} {fault : Fault}
    (h : binaryPlain left op right = .error fault) : fault.Ordinary := by
  unfold binaryPlain at h
  split at h
  · split_ifs at h <;> cases h <;> exact ⟨rfl, rfl, rfl⟩
  · split_ifs at h
    · rcases bind_eq_error h with h | ⟨t, -, h⟩
      · exact unifyOperands_ordinary h
      · cases h
    · cases h
      exact operandFault_ordinary _ _ _
  · split_ifs at h
    · cases h
      exact ⟨rfl, rfl, rfl⟩
    · cases h
      exact ⟨rfl, rfl, rfl⟩
    · exact unifyOperands_ordinary h
  · split_ifs at h
    · exact unifyOperands_ordinary h
    · cases h
      exact operandFault_ordinary _ _ _

theorem binary_ordinary {left right : Ty} {op : BinaryOp} {fault : Fault}
    (h : binary left op right = .error fault) : fault.Ordinary := by
  unfold binary at h
  split_ifs at h
  exact binaryPlain_ordinary h

theorem unary_ordinary {op : UnaryOp} {operand : Ty} {fault : Fault}
    (h : unary op operand = .error fault) : fault.Ordinary := by
  unfold unary at h
  simp only at h
  split_ifs at h
  cases h
  exact ⟨rfl, rfl, rfl⟩

theorem convert_ordinary {source target : Ty} {fault : Fault}
    (h : convert source target = .error fault) : fault.Ordinary := by
  unfold convert at h
  split_ifs at h
  cases h
  exact ⟨rfl, rfl, rfl⟩

theorem expect_error {target value : Ty} {fault : Fault} (h : target.expect value = .error fault) :
    fault.OfProgram :=
  (expect_ordinary h).ofProgram

theorem binary_error {left right : Ty} {op : BinaryOp} {fault : Fault}
    (h : binary left op right = .error fault) : fault.OfProgram :=
  (binary_ordinary h).ofProgram

theorem unary_error {op : UnaryOp} {operand : Ty} {fault : Fault}
    (h : unary op operand = .error fault) : fault.OfProgram :=
  (unary_ordinary h).ofProgram

theorem convert_error {source target : Ty} {fault : Fault}
    (h : convert source target = .error fault) : fault.OfProgram :=
  (convert_ordinary h).ofProgram

end Ty

theorem Fault.ofViolation_ordinary (violation : Violation) :
    (Fault.ofViolation violation).Ordinary := by
  cases violation <;> exact ⟨rfl, rfl, rfl⟩

theorem Fault.ofViolation_ofProgram (violation : Violation) :
    (Fault.ofViolation violation).OfProgram :=
  (ofViolation_ordinary violation).ofProgram

/-- The rules for the use of a variable blame a move only if the variable is moved. -/
theorem State.checkUse_ordinary {state : State} {symbol : Symbol} {use : Use} {fault : Fault}
    (hlive : symbol.isMoved = false) (h : state.checkUse symbol use = .error fault) :
    fault.Ordinary := by
  unfold State.checkUse at h
  rw [hlive] at h
  simp only [Bool.false_eq_true, if_false] at h
  split at h
  · cases h
    exact Fault.ofViolation_ordinary _
  · split at h
    · split at h <;> cases h
      exact Fault.ofViolation_ordinary _
    · cases h

theorem State.checkUse_error {state : State} {symbol : Symbol} {use : Use} {fault : Fault}
    (h : state.checkUse symbol use = .error fault) : fault.OfProgram := by
  cases hmoved : symbol.isMoved with
  | true =>
      unfold State.checkUse at h
      rw [hmoved] at h
      cases h
      rfl
  | false => exact (State.checkUse_ordinary hmoved h).ofProgram

namespace Table

/-- The only thing that can be wrong with a declaration is that the name is taken. -/
theorem declare_error {table : Table} {symbol : Symbol} {cause : ScopeFault}
    (h : table.declare symbol = .error cause) : cause = .duplicate symbol.name := by
  unfold declare at h
  split at h
  · cases h
    rfl
  · cases h

mutual
theorem resolve_ordinary {table : Table} : ∀ {type : TypeExpr} {diagnostic : Diagnostic},
    table.resolve type = .error diagnostic → diagnostic.fault.Ordinary
  | .blank _, _, h => by cases h
  | .named span name args, diagnostic, h => by
      rw [resolve] at h
      rcases bind_eq_error h with h | ⟨tys, -, h⟩
      · exact resolveAll_ordinary h
      · split at h
        · split at h <;> cases h
          exact ⟨rfl, rfl, rfl⟩
        · split at h
          · cases h
            exact ⟨rfl, rfl, rfl⟩
          · split_ifs at h <;> cases h <;> exact ⟨rfl, rfl, rfl⟩

theorem resolveAll_ordinary {table : Table} : ∀ {types : List TypeExpr} {diagnostic : Diagnostic},
    resolveAll table types = .error diagnostic → diagnostic.fault.Ordinary
  | [], _, h => by cases h
  | type :: types, diagnostic, h => by
      rw [resolveAll] at h
      rcases bind_eq_error h with h | ⟨ty, -, h⟩
      · exact resolve_ordinary h
      · rcases bind_eq_error h with h | ⟨tys, -, h⟩
        · exact resolveAll_ordinary h
        · cases h
end

theorem memberType_ordinary {table : Table} {object : Ty} {property : Ident}
    {diagnostic : Diagnostic} (h : table.memberType object property = .error diagnostic) :
    diagnostic.fault.Ordinary := by
  unfold memberType at h
  simp only at h
  split at h
  · cases h
  · split at h
    · cases h
      exact ⟨rfl, rfl, rfl⟩
    · split at h <;> cases h
      exact ⟨rfl, rfl, rfl⟩
  · cases h
    exact ⟨rfl, rfl, rfl⟩

theorem resolve_error {table : Table} {type : TypeExpr} {diagnostic : Diagnostic}
    (h : table.resolve type = .error diagnostic) : diagnostic.fault.OfProgram :=
  (resolve_ordinary h).ofProgram

theorem memberType_error {table : Table} {object : Ty} {property : Ident} {diagnostic : Diagnostic}
    (h : table.memberType object property = .error diagnostic) : diagnostic.fault.OfProgram :=
  (memberType_ordinary h).ofProgram

end Table

end Custody
