import Custody.Program.Expr

/-! The types that checking assigns to expressions and bindings. -/

namespace Custody

/-- Types that need no declaration. -/
inductive Primitive where
  | numeric (n : Numeric)
  | bool
  | letter
  | byte
  deriving DecidableEq

namespace Primitive

def all : List Primitive :=
  Numeric.all.map numeric ++ [bool, letter, byte]

def render : Primitive → String
  | numeric n => n.render
  | bool => "bool"
  | letter => "letter"
  | byte => "byte"

def ofName? (name : String) : Option Primitive :=
  all.find? (·.render == name)

def isInteger : Primitive → Bool
  | numeric n => n.isInteger
  | _ => false

def isFractional : Primitive → Bool
  | numeric n => n.isFractional
  | _ => false

/-- Letters and bytes, which have an order and convert to integers, but are no numbers. -/
def isCode : Primitive → Bool
  | letter | byte => true
  | _ => false

theorem mem_all (p : Primitive) : p ∈ all := by
  cases p <;> simp [all, Numeric.mem_all]

end Primitive

inductive Ty where
  | prim (p : Primitive)
  /-- An integer literal without a suffix: it fits every integer type until it is bound. -/
  | intLiteral
  /-- A fractional literal without a suffix. -/
  | floatLiteral
  | blank
  | named (name : String) (args : List Ty)
  /-- A scoped token that stands for a variable of type `inner`. -/
  | token (access : Access) (inner : Ty)
  | routine (params : List Ty) (result : Ty)
  /-- A type parameter of the record or entity being declared. -/
  | param (name : String)
  /-- Stands where an error has been reported already, and agrees with everything. -/
  | unknown

namespace Ty

mutual
def decEq : (left right : Ty) → Decidable (left = right)
  | prim p, right =>
      match right with
      | prim q => decidable_of_iff (p = q) (by simp)
      | intLiteral | floatLiteral | blank | named _ _ | token _ _ | routine _ _ | param _
      | unknown => isFalse (by simp)
  | intLiteral, right =>
      match right with
      | intLiteral => isTrue rfl
      | prim _ | floatLiteral | blank | named _ _ | token _ _ | routine _ _ | param _ | unknown =>
          isFalse (by simp)
  | floatLiteral, right =>
      match right with
      | floatLiteral => isTrue rfl
      | prim _ | intLiteral | blank | named _ _ | token _ _ | routine _ _ | param _ | unknown =>
          isFalse (by simp)
  | blank, right =>
      match right with
      | blank => isTrue rfl
      | prim _ | intLiteral | floatLiteral | named _ _ | token _ _ | routine _ _ | param _
      | unknown => isFalse (by simp)
  | named m ss, right =>
      match right with
      | named n ts =>
          have := decEqAll ss ts
          decidable_of_iff (m = n ∧ ss = ts) (by simp)
      | prim _ | intLiteral | floatLiteral | blank | token _ _ | routine _ _ | param _ | unknown =>
          isFalse (by simp)
  | token a s, right =>
      match right with
      | token b t =>
          have := decEq s t
          decidable_of_iff (a = b ∧ s = t) (by simp)
      | prim _ | intLiteral | floatLiteral | blank | named _ _ | routine _ _ | param _ | unknown =>
          isFalse (by simp)
  | routine ps r, right =>
      match right with
      | routine qs t =>
          have := decEqAll ps qs
          have := decEq r t
          decidable_of_iff (ps = qs ∧ r = t) (by simp)
      | prim _ | intLiteral | floatLiteral | blank | named _ _ | token _ _ | param _ | unknown =>
          isFalse (by simp)
  | param m, right =>
      match right with
      | param n => decidable_of_iff (m = n) (by simp)
      | prim _ | intLiteral | floatLiteral | blank | named _ _ | token _ _ | routine _ _
      | unknown => isFalse (by simp)
  | unknown, right =>
      match right with
      | unknown => isTrue rfl
      | prim _ | intLiteral | floatLiteral | blank | named _ _ | token _ _ | routine _ _
      | param _ => isFalse (by simp)

def decEqAll : (left right : List Ty) → Decidable (left = right)
  | [], [] => isTrue rfl
  | [], _ :: _ => isFalse (by simp)
  | _ :: _, [] => isFalse (by simp)
  | s :: ss, t :: ts =>
      have := decEq s t
      have := decEqAll ss ts
      decidable_of_iff (s = t ∧ ss = ts) (by simp)
end

instance : DecidableEq Ty := decEq

def bool : Ty := prim .bool

def letter : Ty := prim .letter

/-- The numeric primitive `n`. -/
def num (n : Numeric) : Ty := prim (.numeric n)

/-- A named type without arguments. -/
def plain (name : String) : Ty := named name []

/-- The built-in type of texts. -/
def text : Ty := plain "Text"

mutual
def render : Ty → String
  | prim p => p.render
  | intLiteral => "\x7binteger\x7d"
  | floatLiteral => "\x7bfloat\x7d"
  | blank => "Blank"
  | named name [] => name
  | named name (arg :: args) => name ++ "<" ++ ", ".intercalate (renderAll (arg :: args)) ++ ">"
  | token access inner => access.tokenName ++ "<" ++ inner.render ++ ">"
  | routine params result =>
      "routine(" ++ ", ".intercalate (renderAll params) ++ ") -> " ++ result.render
  | param name => name
  | unknown => "?"

def renderAll : List Ty → List String
  | [] => []
  | t :: ts => t.render :: renderAll ts
end

instance : ToString Ty := ⟨render⟩

/-- The type under all tokens. -/
def strip : Ty → Ty
  | token _ inner => inner.strip
  | t => t

/-- The access of the outermost token. -/
def access? : Ty → Option Access
  | token access _ => some access
  | _ => none

def isToken (t : Ty) : Bool :=
  t.access?.isSome

def isBool : Ty → Bool
  | prim .bool => true
  | _ => false

def isText : Ty → Bool
  | named name _ => name == "Text"
  | _ => false

def isInteger : Ty → Bool
  | prim p => p.isInteger
  | intLiteral => true
  | named name _ => name == "Integer"
  | _ => false

def isFractional : Ty → Bool
  | prim p => p.isFractional
  | floatLiteral => true
  | named name _ => name == "Decimal"
  | _ => false

def isNumeric (t : Ty) : Bool :=
  t.isInteger || t.isFractional

/-- A letter or a byte. -/
def isCode : Ty → Bool
  | prim p => p.isCode
  | _ => false

/-- An unsuffixed literal that has not been bound yet. -/
def isFlexible : Ty → Bool
  | intLiteral | floatLiteral => true
  | _ => false

@[simp] theorem strip_token (a : Access) (t : Ty) : (token a t).strip = t.strip := rfl

end Ty

namespace Literal

/-- A suffix names the type of a literal. Without one it stays flexible. -/
def ty : Literal → Ty
  | int _ (some suffix) | float _ (some suffix) => .num suffix
  | int _ none => .intLiteral
  | float _ none => .floatLiteral
  | bool _ => .bool
  | text _ => .text
  | letter _ => .letter

end Literal

end Custody
