import Custody.Diagnostic
import Custody.Ty.Accept

/-! The types of operations: assignment, operators and conversions. -/

namespace Custody.Ty

/-- A value of type `value` can be put where `target` is expected. -/
def expect (target value : Ty) : Except Fault Unit :=
  if target.accepts value then .ok () else .error (.typeMismatch target value)

/-- The common type of two numeric operands. -/
def unifyOperands (left : Ty) (op : BinaryOp) (right : Ty) : Except Fault Ty :=
  match unify left right with
  | some t => .ok t
  | none => .error (.mixedArithmetic op left right)

/-- The fault of operands that have no operator in common: if one of them is a number, the other one
should be. -/
def operandFault (left : Ty) (op : BinaryOp) (right : Ty) : Fault :=
  if left.isNumeric then .typeMismatch left right
  else if right.isNumeric then .typeMismatch right left
  else .misuse (.operands op left right)

/-- Whether values of this type can be compared with `op`. Every type has equality. -/
def isOrderedFor (t : Ty) (op : BinaryOp) : Bool :=
  op == .eq || op == .notEq || t.isText || t.isCode

/-- The operators on operands that are no tokens. -/
def binaryPlain (left : Ty) (op : BinaryOp) (right : Ty) : Except Fault Ty :=
  match op.family with
  | .logical =>
      if !left.isBool then .error (.typeMismatch bool left)
      else if !right.isBool then .error (.typeMismatch bool right)
      else .ok bool
  | .comparison =>
      if left.isNumeric && right.isNumeric then do
        let _ ← unifyOperands left op right
        return bool
      else if left.isOrderedFor op && left.accepts right && right.accepts left then .ok bool
      else .error (operandFault left op right)
  | .bitwise =>
      if !left.isInteger then .error (.typeMismatch (num .u64) left)
      else if !right.isInteger then .error (.typeMismatch (num .u64) right)
      else unifyOperands left op right
  | .arithmetic =>
      if op == .add && left.isText && right.isText then .ok text
      else if left.isNumeric && right.isNumeric then unifyOperands left op right
      else .error (operandFault left op right)

/-- The type of an operation when an operand is not known. -/
def binaryUnknown (op : BinaryOp) : Ty :=
  match op.family with
  | .comparison | .logical => bool
  | .arithmetic | .bitwise => unknown

/-- The type of `left op right`. Tokens stand for what they hold. -/
def binary (left : Ty) (op : BinaryOp) (right : Ty) : Except Fault Ty :=
  if left.strip = unknown ∨ right.strip = unknown then .ok (binaryUnknown op)
  else binaryPlain left.strip op right.strip

def supportsUnary (t : Ty) : UnaryOp → Bool
  | .neg => t.isNumeric
  | .not => t.isBool
  | .bitNot => t.isInteger

def unary (op : UnaryOp) (operand : Ty) : Except Fault Ty :=
  let t := operand.strip
  if t = unknown then .ok unknown
  else if t.supportsUnary op then .ok t
  else .error (.misuse (.operand op t))

/-- Numbers convert into each other, and letters and bytes from and to integers. -/
def convertsTo (source target : Ty) : Bool :=
  source = unknown || target = unknown || (source.isNumeric && target.isNumeric) ||
    target.accepts source || (source.isCode && target.isInteger) ||
    (source.isInteger && target.isCode)

def convert (source target : Ty) : Except Fault Unit :=
  if source.strip.convertsTo target then .ok ()
  else .error (.misuse (.conversion source.strip target))

end Custody.Ty
