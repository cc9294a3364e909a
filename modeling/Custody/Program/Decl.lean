import Custody.Program.Stmt

/-! Declarations, imports and whole programs. -/

namespace Custody

structure Param where
  name : Ident
  type : TypeExpr

/-- A routine; without a body it is a signature that is implemented elsewhere. -/
structure Routine where
  span : Span
  name : Ident
  params : List Param
  result : Option TypeExpr
  body : Option (List Stmt)
  visibility : Visibility := .hidden
  usurping : Bool := false

/-- Whether the values of a type are copied or shared by reference. -/
inductive Semantics where
  | value
  | reference
  deriving DecidableEq

structure FieldDecl where
  name : Ident
  type : TypeExpr
  visibility : Visibility := .hidden

/-- A record (value semantics) or an entity (reference semantics). -/
structure TypeDecl where
  semantics : Semantics
  name : Ident
  params : List Ident
  fields : List FieldDecl
  visibility : Visibility := .hidden

inductive Decl where
  | routine (decl : Routine)
  | type (decl : TypeDecl)
  | var (decl : VarDecl)

namespace Decl

def name : Decl → Ident
  | routine d => d.name
  | type d => d.name
  | var d => d.name

def visibility : Decl → Visibility
  | routine d => d.visibility
  | type d => d.visibility
  | var d => d.visibility

end Decl

/-- An import of a module. With a name its exports are reached through that name, without one they
are declared as if they stood here. -/
structure Import where
  span : Span
  path : String
  name : Option Ident := none

inductive Item where
  | load (request : Import)
  | decl (decl : Decl)

abbrev Program := List Item

namespace Program

def imports (program : Program) : List Import :=
  program.filterMap fun
    | .load request => some request
    | .decl _ => none

def decls (program : Program) : List Decl :=
  program.filterMap fun
    | .load _ => none
    | .decl d => some d

/-- The declarations other modules see, in order. -/
def exports (program : Program) : List Decl :=
  program.decls.filter (·.visibility == .exported)

/-- The first exported declaration of a name. -/
def export? (program : Program) (name : String) : Option Decl :=
  program.exports.find? (·.name.name == name)

end Program

end Custody
