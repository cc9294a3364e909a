import Custody.Program.Stmt
import Mathlib.Data.List.Basic

/-! The names that stand in a piece of a program, and expressions without their parentheses. An
expression can be read in two ways, as it is written or without its parentheses; what it names is the
same, and only its place may be another one. -/

namespace Custody

/-! ### Names -/

mutual
def TypeExpr.names : TypeExpr → List String
  | .named _ name args => name.name :: TypeExpr.namesAll args
  | .blank _ => []

def TypeExpr.namesAll : List TypeExpr → List String
  | [] => []
  | type :: types => type.names ++ TypeExpr.namesAll types
end

mutual
/-- All names in an expression, whatever they stand for: variables, types, members and fields, and the
variable and the token of an access. -/
def Expr.names : Expr → List String
  | .literal _ _ => []
  | .ident _ name => [name]
  | .binary _ left _ right => left.names ++ right.names
  | .unary _ _ operand => operand.names
  | .call _ callee args => callee.names ++ Expr.namesAll args
  | .member _ object property => property.name :: object.names
  | .index _ object position => object.names ++ position.names
  | .construct _ type inits => type.name :: Expr.namesInits inits
  | .convert _ operand target => operand.names ++ target.names
  | .raw _ _ type args => (type.map TypeExpr.names).getD [] ++ Expr.namesAll args
  | .access _ _ source token body => source.name :: token.name :: body.names
  | .paren _ inner => inner.names

def Expr.namesAll : List Expr → List String
  | [] => []
  | expr :: exprs => expr.names ++ Expr.namesAll exprs

def Expr.namesInits : List (FieldInit Expr) → List String
  | [] => []
  | ⟨name, value⟩ :: inits => name.name :: (value.names ++ Expr.namesInits inits)
end

def VarDecl.names (decl : VarDecl) : List String :=
  decl.name.name :: ((decl.type.map TypeExpr.names).getD [] ++ (decl.init.map Expr.names).getD [])

def Pattern.names : Pattern → List String
  | .otherwise _ | .literal _ _ => []
  | .binding _ name => [name.name]

mutual
/-- All names in a statement, those that it declares included. -/
def Stmt.names : Stmt → List String
  | .expr _ value | .raise _ value => value.names
  | .var _ decl => decl.names
  | .assign _ target value => target.names ++ value.names
  | .give _ value => (value.map Expr.names).getD []
  | .branch _ condition body none => condition.names ++ Stmt.namesAll body
  | .branch _ condition body (some stmt) => condition.names ++ (Stmt.namesAll body ++ stmt.names)
  | .whileLoop _ condition body => condition.names ++ Stmt.namesAll body
  | .forLoop _ binding items body => binding.name :: (items.names ++ Stmt.namesAll body)
  | .choose _ subject arms => subject.names ++ Stmt.namesArms arms
  | .block _ body | .danger _ body | .mayhem _ body => Stmt.namesAll body
  | .access _ _ source token body => source.name :: token.name :: Stmt.namesAll body
  | .leaveLoop _ | .nextRound _ => []

def Stmt.namesAll : List Stmt → List String
  | [] => []
  | stmt :: stmts => stmt.names ++ Stmt.namesAll stmts

def Stmt.namesArms : List (Arm Stmt) → List String
  | [] => []
  | ⟨pattern, guard, body⟩ :: arms =>
      pattern.names ++ ((guard.map Expr.names).getD [] ++ (Stmt.namesAll body ++ Stmt.namesArms arms))
end

/-- A name that an expression is, up to parentheses, stands in it. -/
theorem Expr.mem_names_of_asIdent {name : String} : ∀ {expr : Expr}, expr.asIdent = some name →
    name ∈ expr.names
  | .ident _ _, h => by
      cases h
      exact List.mem_singleton_self name
  | .paren _ inner, h => by
      have hinner : inner.asIdent = some name := h
      rw [names]
      exact mem_names_of_asIdent hinner

/-! ### Parentheses -/

mutual
/-- The expression without its parentheses, at any depth. -/
def Expr.bare : Expr → Expr
  | .paren _ inner => inner.bare
  | .literal span value => .literal span value
  | .ident span name => .ident span name
  | .binary span left op right => .binary span left.bare op right.bare
  | .unary span op operand => .unary span op operand.bare
  | .call span callee args => .call span callee.bare (Expr.bareAll args)
  | .member span object property => .member span object.bare property
  | .index span object position => .index span object.bare position.bare
  | .construct span type inits => .construct span type (Expr.bareInits inits)
  | .convert span operand target => .convert span operand.bare target
  | .raw span op type args => .raw span op type (Expr.bareAll args)
  | .access span kind source token body => .access span kind source token body.bare

def Expr.bareAll : List Expr → List Expr
  | [] => []
  | expr :: exprs => expr.bare :: Expr.bareAll exprs

def Expr.bareInits : List (FieldInit Expr) → List (FieldInit Expr)
  | [] => []
  | ⟨name, value⟩ :: inits => ⟨name, value.bare⟩ :: Expr.bareInits inits
end

mutual
def Expr.hasParen : Expr → Bool
  | .paren _ _ => true
  | .literal _ _ | .ident _ _ => false
  | .binary _ left _ right | .index _ left right => left.hasParen || right.hasParen
  | .unary _ _ operand | .member _ operand _ | .convert _ operand _ | .access _ _ _ _ operand =>
      operand.hasParen
  | .call _ callee args => callee.hasParen || Expr.anyParen args
  | .construct _ _ inits => Expr.anyParenInits inits
  | .raw _ _ _ args => Expr.anyParen args

def Expr.anyParen : List Expr → Bool
  | [] => false
  | expr :: exprs => expr.hasParen || Expr.anyParen exprs

def Expr.anyParenInits : List (FieldInit Expr) → Bool
  | [] => false
  | ⟨_, value⟩ :: inits => value.hasParen || Expr.anyParenInits inits
end

mutual
/-- No parentheses are left. -/
theorem Expr.hasParen_bare : ∀ expr : Expr, expr.bare.hasParen = false
  | .paren _ inner => by rw [bare, hasParen_bare inner]
  | .literal _ _ | .ident _ _ => rfl
  | .binary _ left _ right | .index _ left right => by
      rw [bare, hasParen, hasParen_bare left, hasParen_bare right, Bool.or_self]
  | .unary _ _ operand | .member _ operand _ | .convert _ operand _ | .access _ _ _ _ operand => by
      rw [bare, hasParen, hasParen_bare operand]
  | .call _ callee args => by
      rw [bare, hasParen, hasParen_bare callee, anyParen_bareAll args, Bool.or_self]
  | .construct _ _ inits => by rw [bare, hasParen, anyParenInits_bareInits inits]
  | .raw _ _ _ args => by rw [bare, hasParen, anyParen_bareAll args]

theorem Expr.anyParen_bareAll : ∀ exprs : List Expr, Expr.anyParen (Expr.bareAll exprs) = false
  | [] => rfl
  | expr :: exprs => by
      rw [bareAll, anyParen, hasParen_bare expr, anyParen_bareAll exprs, Bool.or_self]

theorem Expr.anyParenInits_bareInits : ∀ inits : List (FieldInit Expr),
    Expr.anyParenInits (Expr.bareInits inits) = false
  | [] => rfl
  | ⟨_, value⟩ :: inits => by
      rw [bareInits, anyParenInits, hasParen_bare value, anyParenInits_bareInits inits, Bool.or_self]
end

theorem Expr.asIdent_bare : ∀ expr : Expr, expr.bare.asIdent = expr.asIdent
  | .paren _ inner => by
      rw [bare, asIdent]
      exact asIdent_bare inner
  | .literal .. | .ident .. | .binary .. | .unary .. | .call .. | .member .. | .index ..
  | .construct .. | .convert .. | .raw .. | .access .. => rfl

theorem Expr.spelled_bare : ∀ expr : Expr, expr.bare.spelled = expr.spelled
  | .paren _ inner => by
      rw [bare, spelled]
      exact spelled_bare inner
  | .member _ object property => by
      rw [bare, spelled, spelled, spelled_bare object]
  | .literal .. | .ident .. | .binary .. | .unary .. | .call .. | .index ..
  | .construct .. | .convert .. | .raw .. | .access .. => rfl

theorem Expr.length_bareAll (exprs : List Expr) : (Expr.bareAll exprs).length = exprs.length := by
  induction exprs with
  | nil => rfl
  | cons expr exprs ih => simp [bareAll, ih]

/-- How an expression is read: as it is written, or without its parentheses. -/
inductive Reading where
  | written
  | bare

namespace Reading

variable (reading : Reading)

def expr : Reading → Expr → Expr
  | written, expr => expr
  | bare, expr => expr.bare

def args : Reading → List Expr → List Expr
  | written, args => args
  | bare, args => Expr.bareAll args

def inits : Reading → List (FieldInit Expr) → List (FieldInit Expr)
  | written, inits => inits
  | bare, inits => Expr.bareInits inits

/-- The places at which a piece of a program and what is read of it may stand. Without parentheses the
place is another one. -/
def Places : Reading → Span → Span → Prop
  | written, span, span' => span = span'
  | bare, _, _ => True

theorem places_refl (span : Span) : reading.Places span span := by
  cases reading with
  | written => rfl
  | bare => trivial

theorem places_expr (expr : Expr) : reading.Places expr.span (reading.expr expr).span := by
  cases reading with
  | written => rfl
  | bare => trivial

@[simp] theorem asIdent_expr (expr : Expr) : (reading.expr expr).asIdent = expr.asIdent := by
  cases reading with
  | written => rfl
  | bare => exact expr.asIdent_bare

@[simp] theorem spelled_expr (expr : Expr) : (reading.expr expr).spelled = expr.spelled := by
  cases reading with
  | written => rfl
  | bare => exact expr.spelled_bare

section Shape

variable (span : Span) (left right : Expr) (rest : List Expr) (name : Ident)
  (fields : List (FieldInit Expr))

theorem expr_literal (value : Literal) :
    reading.expr (.literal span value) = .literal span value := by
  cases reading <;> rfl

theorem expr_ident (name : String) : reading.expr (.ident span name) = .ident span name := by
  cases reading <;> rfl

theorem expr_binary (op : BinaryOp) :
    reading.expr (.binary span left op right) =
      .binary span (reading.expr left) op (reading.expr right) := by
  cases reading <;> rfl

theorem expr_unary (op : UnaryOp) :
    reading.expr (.unary span op left) = .unary span op (reading.expr left) := by
  cases reading <;> rfl

theorem expr_call : reading.expr (.call span left rest) =
    .call span (reading.expr left) (reading.args rest) := by
  cases reading <;> rfl

theorem expr_member :
    reading.expr (.member span left name) = .member span (reading.expr left) name := by
  cases reading <;> rfl

theorem expr_index : reading.expr (.index span left right) =
    .index span (reading.expr left) (reading.expr right) := by
  cases reading <;> rfl

theorem expr_construct : reading.expr (.construct span name fields) =
    .construct span name (reading.inits fields) := by
  cases reading <;> rfl

theorem expr_convert (target : TypeExpr) : reading.expr (.convert span left target) =
    .convert span (reading.expr left) target := by
  cases reading <;> rfl

theorem expr_raw (op : RawOp) (type : Option TypeExpr) : reading.expr (.raw span op type rest) =
    .raw span op type (reading.args rest) := by
  cases reading <;> rfl

theorem expr_access (kind : Access) (token : Ident) :
    reading.expr (.access span kind name token left) =
      .access span kind name token (reading.expr left) := by
  cases reading <;> rfl

@[simp] theorem args_nil : reading.args [] = [] := by
  cases reading <;> rfl

@[simp] theorem args_cons : reading.args (left :: rest) = reading.expr left :: reading.args rest := by
  cases reading <;> rfl

@[simp] theorem inits_nil : reading.inits [] = [] := by
  cases reading <;> rfl

@[simp] theorem inits_cons : reading.inits (⟨name, left⟩ :: fields) =
    ⟨name, reading.expr left⟩ :: reading.inits fields := by
  cases reading <;> rfl

end Shape

@[simp] theorem length_args (args : List Expr) : (reading.args args).length = args.length := by
  cases reading with
  | written => rfl
  | bare => exact Expr.length_bareAll args

end Reading

end Custody
