import Custody.Language
import Custody.Library.LoadError
import Custody.Modes
import Custody.Scope.Table

/-! What the analysis reports: faults, their wording, and where they stand. -/

namespace Custody

/-- A construct that only some of the languages have. -/
inductive Construct where
  | access (kind : Access)
  | dangerBlock
  | mayhemBlock
  | usurpingRoutine
  deriving DecidableEq

namespace Construct

def render : Construct → String
  | access kind => "'" ++ kind.keyword ++ "'"
  | dangerBlock => "danger! block"
  | mayhemBlock => "mayhem! block"
  | usurpingRoutine => "usurping routine"

instance : ToString Construct := ⟨render⟩

end Construct

/-- An operation that makes no sense where it stands. -/
inductive Misuse where
  | operands (op : BinaryOp) (left right : Ty)
  | operand (op : UnaryOp) (operand : Ty)
  | conversion (source target : Ty)
  | accessToNonVariable (kind : Access) (name : String)
  | tokenField (name : String)
  | notAType (name : String)
  | notIterable (ty : Ty)
  | breakOutsideLoop
  | continueOutsideLoop
  | returnOutsideRoutine
  | assignTo (name : String)
  | assignThrough (name : String)
  | assignTarget
  | typeAsValue (name : String)
  | moduleAsValue (path : String)
  | notIndexable (ty : Ty)
  | missingField (field type : String)
  | missingTypeArgument (op : RawOp)
  | addressOfNonVariable

namespace Misuse

def message : Misuse → String
  | operands op left right => s!"'{op}' is not defined for {left} and {right}"
  | operand op ty => s!"'{op}' cannot be applied to {ty}"
  | conversion source target => s!"cannot convert {source} to {target}"
  | accessToNonVariable kind name =>
      "cannot apply '" ++ kind.keyword ++ s!"' to '{name}': it is not a variable"
  | tokenField name => s!"field '{name}' cannot hold a scoped token"
  | notAType name => s!"'{name}' is not a type"
  | notIterable ty => s!"cannot iterate over {ty}"
  | breakOutsideLoop => "'break' outside of a loop"
  | continueOutsideLoop => "'continue' outside of a loop"
  | returnOutsideRoutine => "'return' outside of a routine"
  | assignTo name => s!"cannot assign to '{name}'"
  | assignThrough name => s!"cannot assign through '{name}'"
  | assignTarget => "invalid assignment target"
  | typeAsValue name => s!"type '{name}' cannot be used as a value"
  | moduleAsValue path => s!"module '{path}' cannot be used as a value"
  | notIndexable ty => s!"cannot index into {ty}"
  | missingField field type => s!"missing field '{field}' in construction of {type}"
  | missingTypeArgument op => s!"{op} needs a type argument"
  | addressOfNonVariable => "address_of! takes a variable"

instance : ToString Misuse := ⟨message⟩

end Misuse

/-- The operations that ask for a mode. -/
inductive GuardedOperation where
  | access (kind : Access) (source : String)
  | raw (op : RawOp)
  | other (description : String)

namespace GuardedOperation

def render : GuardedOperation → String
  | access kind source => kind.keyword ++ " '" ++ source ++ "'"
  | raw op => op.render
  | other description => description

instance : ToString GuardedOperation := ⟨render⟩

end GuardedOperation

inductive Fault where
  | duplicateDeclaration (name : String)
  | undefinedSymbol (name : String)
  | typeMismatch (expected found : Ty)
  | mixedArithmetic (op : BinaryOp) (left right : Ty)
  | sourceHeld (source token : String) (access : Access)
  | tokenEscape (token : String) (reason : Escape)
  | modeRequired (operation : GuardedOperation) (requirement : ModeRequirement)
  | moduleNotLoaded (path : String) (cause : LoadError)
  | useAfterMove (name : String)
  | assignToImmutable (name : String)
  | readOnlyToken (token : String) (access : Access)
  | arityMismatch (name : String) (expected found : Nat)
  | notCallable (name : String)
  | unknownMember (ty : Ty) (member : String)
  | unsupported (construct : Construct) (language : Language)
  | cannotInfer (name : String)
  | misuse (what : Misuse)
  /-- The analysis lost track of its own scopes. -/
  | scopesBroken (cause : ScopeFault)

namespace Fault

def message : Fault → String
  | duplicateDeclaration name => s!"duplicate declaration of '{name}' in this scope"
  | undefinedSymbol name => s!"undefined symbol '{name}'"
  | typeMismatch expected found => s!"type mismatch: expected {expected}, found {found}"
  | mixedArithmetic op left right =>
      s!"cannot apply '{op}' to {left} and {right}; convert one side explicitly"
  | sourceHeld source token access =>
      s!"'{source}' cannot be used while it is {access} as '{token}'"
  | tokenEscape token reason => s!"scoped token '{token}' escapes its construct: {reason}"
  | modeRequired operation requirement => s!"{operation} requires {requirement}"
  | moduleNotLoaded path cause => s!"cannot load module '{path}': " ++ cause.message
  | useAfterMove name => s!"use of moved value '{name}'"
  | assignToImmutable name => s!"cannot assign to immutable binding '{name}'"
  | readOnlyToken token access => s!"cannot write through '{token}': it is only {access}"
  | arityMismatch name expected found =>
      s!"'{name}' expects {expected} argument(s), found {found}"
  | notCallable name => s!"'{name}' is not a routine"
  | unknownMember ty member => s!"{ty} has no member '{member}'"
  | unsupported construct language => s!"{construct} is not available in {language}"
  | cannotInfer name =>
      s!"cannot infer a type for '{name}' without an annotation or initializer"
  | misuse what => s!"invalid operation: {what}"
  | scopesBroken cause => "internal analyzer error: " ++ cause.message

def ofScope : ScopeFault → Fault
  | .duplicate name => duplicateDeclaration name
  | .notFound name => undefinedSymbol name
  | .underflow => scopesBroken .underflow

def ofViolation : Violation → Fault
  | .conflict source token access | .held source token access => sourceHeld source token access
  | .escape token reason => tokenEscape token reason
  | .readOnly token access => readOnlyToken token access

/-- A fault of the analysis itself and not of the program. -/
def isInternal : Fault → Bool
  | scopesBroken _ => true
  | _ => false

end Fault

structure Diagnostic where
  fault : Fault
  span : Span

namespace Diagnostic

def message (diagnostic : Diagnostic) : String :=
  s!"semantic error at {diagnostic.span}: " ++ diagnostic.fault.message

end Diagnostic

end Custody
