import Custody.Ledger
import Custody.Program.Decl
import Custody.Ty.Basic

/-! Symbols: what a name stands for. -/

namespace Custody

/-- Whether a variable still has its value. -/
inductive Holding where
  | live
  | moved
  deriving DecidableEq

inductive SymbolKind where
  /-- A built-in type without parts, or a type parameter. -/
  | basic
  /-- A record or an entity. -/
  | composite (semantics : Semantics) (fields : List (String × Ty)) (params : List String)
  | routine (usurping : Bool)
  | var (mutable : Bool) (state : Holding)
  /-- A name for the module at a path. -/
  | module (path : String)

structure Symbol where
  name : String
  kind : SymbolKind
  ty : Ty
  visibility : Visibility := .hidden
  depth : Nat := 0
  span : Span := {}

namespace Symbol

def var (name : String) (ty : Ty) (mutable : Bool) (span : Span) : Symbol :=
  { name, kind := .var mutable .live, ty, span }

def routine (name : String) (ty : Ty) (usurping : Bool) (span : Span) : Symbol :=
  { name, kind := .routine usurping, ty, span }

def composite (semantics : Semantics) (name : String) (fields : List (String × Ty))
    (params : List String) (span : Span) : Symbol :=
  { name, kind := .composite semantics fields params, ty := .plain name, span }

def basic (name : String) (ty : Ty) (span : Span) : Symbol :=
  { name, kind := .basic, ty, span }

def module (name path : String) (span : Span) : Symbol :=
  { name, kind := .module path, ty := .unknown, span }

/-- The binding that declares the symbol. -/
def key (symbol : Symbol) : Binding :=
  ⟨symbol.name, symbol.depth⟩

def isVar (symbol : Symbol) : Bool :=
  match symbol.kind with
  | .var _ _ => true
  | _ => false

def isType (symbol : Symbol) : Bool :=
  match symbol.kind with
  | .basic | .composite _ _ _ => true
  | _ => false

def isMutable (symbol : Symbol) : Bool :=
  match symbol.kind with
  | .var mutable _ => mutable
  | _ => false

def isMoved (symbol : Symbol) : Bool :=
  match symbol.kind with
  | .var _ state => state == .moved
  | _ => false

/-- The path of the module that the symbol names. -/
def module? (symbol : Symbol) : Option String :=
  match symbol.kind with
  | .module path => some path
  | _ => none

/-- The access of a variable that holds a token. -/
def access? (symbol : Symbol) : Option Access :=
  if symbol.isVar then symbol.ty.access? else none

/-- The fields of a type, in order. -/
def fields? (symbol : Symbol) : Option (List (String × Ty)) :=
  match symbol.kind with
  | .basic => some []
  | .composite _ fields _ => some fields
  | _ => none

/-- The names of the type parameters. -/
def params (symbol : Symbol) : List String :=
  match symbol.kind with
  | .composite _ _ params => params
  | _ => []

def semantics? (symbol : Symbol) : Option Semantics :=
  match symbol.kind with
  | .basic => some .value
  | .composite semantics _ _ => some semantics
  | _ => none

/-- Only variables have a state; any other symbol stays as it is. -/
def setState (state : Holding) (symbol : Symbol) : Symbol :=
  match symbol.kind with
  | .var mutable _ => { symbol with kind := .var mutable state }
  | _ => symbol

/-- Only records and entities have fields to set. -/
def setFields (fields : List (String × Ty)) (symbol : Symbol) : Symbol :=
  match symbol.kind with
  | .composite semantics _ params => { symbol with kind := .composite semantics fields params }
  | _ => symbol

end Symbol

end Custody
