import Custody.Program.Expr

/-! Statements. A block is the list of its statements. -/

namespace Custody

/-- Whether other modules see a declaration. -/
inductive Visibility where
  | exported
  | hidden
  deriving DecidableEq

namespace Visibility

def render : Visibility → String
  | exported => "public"
  | hidden => "private"

end Visibility

/-- A `let` or, if `mutable`, a `var`. -/
structure VarDecl where
  name : Ident
  mutable : Bool
  type : Option TypeExpr := none
  init : Option Expr := none
  visibility : Visibility := .hidden

inductive Pattern where
  | otherwise (span : Span)
  | literal (span : Span) (value : Literal)
  | binding (span : Span) (name : Ident)

/-- One case of a `when`. -/
structure Arm (σ : Type) where
  pattern : Pattern
  guard : Option Expr
  body : List σ

inductive Stmt where
  | expr (span : Span) (value : Expr)
  | var (span : Span) (decl : VarDecl)
  | assign (span : Span) (target value : Expr)
  | give (span : Span) (value : Option Expr)
  | branch (span : Span) (condition : Expr) (body : List Stmt) (otherwise : Option Stmt)
  | whileLoop (span : Span) (condition : Expr) (body : List Stmt)
  | forLoop (span : Span) (binding : Ident) (items : Expr) (body : List Stmt)
  | choose (span : Span) (subject : Expr) (arms : List (Arm Stmt))
  | block (span : Span) (body : List Stmt)
  | danger (span : Span) (body : List Stmt)
  | mayhem (span : Span) (body : List Stmt)
  | access (span : Span) (kind : Access) (source token : Ident) (body : List Stmt)
  | leaveLoop (span : Span)
  | nextRound (span : Span)
  | raise (span : Span) (value : Expr)

end Custody
