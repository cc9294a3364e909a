import Custody.Language
import Custody.Library.LoadError
import Custody.Scope.Symbol
import Custody.Ty.Accept

/-! Modules and what importers see of them. A module is imported without being checked, so the types
of its exports are taken as they are written. -/

namespace Custody

namespace TypeExpr

mutual
/-- The type an importer reads off a type expression, where `params` are the names of type
parameters. -/
def written (params : List String) : TypeExpr → Ty
  | blank _ => .blank
  | named _ name args =>
      match Access.ofTokenName? name.name with
      | some access =>
          match writtenAll params args with
          | [inner] => .token access inner
          | _ => .unknown
      | none =>
          if name.name ∈ params then .param name.name
          else
            match Primitive.ofName? name.name with
            | some p => .prim p
            | none =>
                if name.name = "Blank" then .blank
                else .named name.name (writtenAll params args)

def writtenAll (params : List String) : List TypeExpr → List Ty
  | [] => []
  | t :: ts => t.written params :: writtenAll params ts
end

end TypeExpr

namespace Routine

/-- The signature an importer reads off a routine. -/
def signature (routine : Routine) : Ty :=
  .routine (routine.params.map (·.type.written []))
    ((routine.result.map (·.written [])).getD .blank)

end Routine

namespace TypeDecl

def paramNames (decl : TypeDecl) : List String :=
  decl.params.map (·.name)

/-- The fields an importer reads off a type. -/
def signature (decl : TypeDecl) : List (String × Ty) :=
  decl.fields.map fun field => (field.name.name, field.type.written decl.paramNames)

end TypeDecl

namespace VarDecl

/-- The type an importer reads off a variable: its annotation, or else the type of a literal that it
is set to. -/
def signature (decl : VarDecl) (language : Language) : Ty :=
  match decl.type, decl.init with
  | some type, _ => type.written []
  | none, some (.literal _ value) => language.settle value.ty
  | none, _ => .unknown

end VarDecl

namespace Decl

/-- The symbol under which importers see a declaration. -/
def symbol (language : Language) (decl : Decl) : Symbol :=
  let symbol : Symbol :=
    match decl with
    | routine r => Symbol.routine r.name.name r.signature r.usurping r.name.span
    | type d => Symbol.composite d.semantics d.name.name d.signature d.paramNames d.name.span
    | var v => Symbol.var v.name.name (v.signature language) v.mutable v.name.span
  { symbol with visibility := decl.visibility }

end Decl

/-- A program under the path by which others import it. -/
structure Module where
  path : String
  program : Program

namespace Module

/-- The symbols under which importers see the exports of a module, in order. -/
def exports (module : Module) (language : Language) : List Symbol :=
  module.program.exports.map (Decl.symbol language)

/-- The symbol under which importers see the first export of a name. -/
def exported? (module : Module) (language : Language) (name : String) : Option Symbol :=
  (module.program.exports.find? (·.name.name == name)).map (Decl.symbol language)

end Module

end Custody
