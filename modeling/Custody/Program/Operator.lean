/-! Numeric suffixes and the operators of expressions, with the words that spell them. -/

namespace Custody

/-- The numeric types a literal can name in its suffix. -/
inductive Numeric where
  | s8 | s16 | s32 | s64 | s128 | saddr
  | u8 | u16 | u32 | u64 | u128 | uaddr
  | f16 | f32 | f64 | f128
  | d32 | d64 | d128
  deriving DecidableEq

namespace Numeric

/-- Every numeric type, in the order in which they are listed to users. -/
def all : List Numeric :=
  [s8, s16, s32, s64, s128, saddr, u8, u16, u32, u64, u128, uaddr, f16, f32, f64, f128, d32, d64,
    d128]

def render : Numeric → String
  | s8 => "s8" | s16 => "s16" | s32 => "s32" | s64 => "s64" | s128 => "s128" | saddr => "saddr"
  | u8 => "u8" | u16 => "u16" | u32 => "u32" | u64 => "u64" | u128 => "u128" | uaddr => "uaddr"
  | f16 => "f16" | f32 => "f32" | f64 => "f64" | f128 => "f128"
  | d32 => "d32" | d64 => "d64" | d128 => "d128"

def ofName? (name : String) : Option Numeric :=
  all.find? (·.render == name)

/-- Binary and decimal floating types. -/
def isFractional : Numeric → Bool
  | f16 | f32 | f64 | f128 | d32 | d64 | d128 => true
  | _ => false

def isInteger (n : Numeric) : Bool :=
  !n.isFractional

theorem mem_all (n : Numeric) : n ∈ all := by
  cases n <;> decide

end Numeric

/-- What the operands of an operator have to be, roughly. -/
inductive OperatorFamily where
  | arithmetic
  | comparison
  | logical
  | bitwise
  deriving DecidableEq

inductive BinaryOp where
  | add | sub | mul | div | mod
  | eq | notEq | lt | ltEq | gt | gtEq
  | and | or
  | bitAnd | bitOr | bitXor | shl | shr
  deriving DecidableEq

namespace BinaryOp

def render : BinaryOp → String
  | add => "+" | sub => "-" | mul => "*" | div => "/" | mod => "%"
  | eq => "==" | notEq => "!=" | lt => "<" | ltEq => "<=" | gt => ">" | gtEq => ">="
  | and => "and" | or => "or"
  | bitAnd => "&" | bitOr => "|" | bitXor => "^" | shl => "<<" | shr => ">>"

instance : ToString BinaryOp := ⟨render⟩

def family : BinaryOp → OperatorFamily
  | add | sub | mul | div | mod => .arithmetic
  | eq | notEq | lt | ltEq | gt | gtEq => .comparison
  | and | or => .logical
  | bitAnd | bitOr | bitXor | shl | shr => .bitwise

end BinaryOp

inductive UnaryOp where
  | neg | not | bitNot
  deriving DecidableEq

namespace UnaryOp

def render : UnaryOp → String
  | neg => "-" | not => "not" | bitNot => "~"

instance : ToString UnaryOp := ⟨render⟩

end UnaryOp

/-- Operations on raw memory. -/
inductive RawOp where
  | addressOf | readAs | writeAs
  deriving DecidableEq

namespace RawOp

def render : RawOp → String
  | addressOf => "address_of!" | readAs => "read_as!" | writeAs => "write_as!"

instance : ToString RawOp := ⟨render⟩

/-- How many arguments the operation takes. -/
def arity : RawOp → Nat
  | addressOf | readAs => 1
  | writeAs => 2

end RawOp

end Custody
