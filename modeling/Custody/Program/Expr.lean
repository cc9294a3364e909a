import Custody.Program.Access
import Custody.Program.Operator
import Custody.Program.Span

/-! Type expressions, literals and expressions, each with the place where it stands. -/

namespace Custody

structure Ident where
  name : String
  span : Span := {}
  deriving DecidableEq

/-- A type as it is written. -/
inductive TypeExpr where
  | named (span : Span) (name : Ident) (args : List TypeExpr)
  | blank (span : Span)

namespace TypeExpr

def span : TypeExpr → Span
  | named span _ _ => span
  | blank span => span

mutual
def render : TypeExpr → String
  | named _ name [] => name.name
  | named _ name (arg :: args) =>
      name.name ++ "<" ++ ", ".intercalate (renderAll (arg :: args)) ++ ">"
  | blank _ => "Blank"

def renderAll : List TypeExpr → List String
  | [] => []
  | t :: ts => t.render :: renderAll ts
end

end TypeExpr

/-- A value written out. No rule depends on which value it is. -/
inductive Literal where
  | int (value : Nat) (suffix : Option Numeric)
  | float (digits : String) (suffix : Option Numeric)
  | bool (value : Bool)
  | text (value : String)
  | letter (value : Char)
  deriving DecidableEq

/-- The value given to one field in a construction. -/
structure FieldInit (ε : Type) where
  name : Ident
  value : ε

inductive Expr where
  | literal (span : Span) (value : Literal)
  | ident (span : Span) (name : String)
  | binary (span : Span) (left : Expr) (op : BinaryOp) (right : Expr)
  | unary (span : Span) (op : UnaryOp) (operand : Expr)
  | call (span : Span) (callee : Expr) (args : List Expr)
  | member (span : Span) (object : Expr) (property : Ident)
  | index (span : Span) (object : Expr) (position : Expr)
  | construct (span : Span) (type : Ident) (fields : List (FieldInit Expr))
  | convert (span : Span) (operand : Expr) (target : TypeExpr)
  | raw (span : Span) (op : RawOp) (type : Option TypeExpr) (args : List Expr)
  | access (span : Span) (kind : Access) (source token : Ident) (body : Expr)
  | paren (span : Span) (inner : Expr)

namespace Expr

def span : Expr → Span
  | literal span _ | ident span _ | binary span _ _ _ | unary span _ _ | call span _ _
  | member span _ _ | index span _ _ | construct span _ _ | convert span _ _ | raw span _ _ _
  | access span _ _ _ _ | paren span _ => span

/-- The identifier an expression is, looked at through parentheses. -/
def asIdent : Expr → Option String
  | ident _ name => some name
  | paren _ inner => inner.asIdent
  | _ => none

/-- How a callee is called in messages: its name, a path of members, or just "expression". -/
def spelled : Expr → String
  | ident _ name => name
  | member _ object property => object.spelled ++ "." ++ property.name
  | paren _ inner => inner.spelled
  | _ => "expression"

end Expr

end Custody
