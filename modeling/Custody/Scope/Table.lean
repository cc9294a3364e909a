import Custody.Scope.Symbol

/-! The table of symbols: a stack of scopes, of which the root scope cannot be taken away. A name is
declared once in a scope and hides what outer scopes declare under it. -/

namespace Custody

/-- What can be wrong with a request to the table. -/
inductive ScopeFault where
  | duplicate (name : String)
  | notFound (name : String)
  | underflow
  deriving DecidableEq

namespace ScopeFault

def message : ScopeFault → String
  | duplicate name => s!"duplicate declaration of '{name}'"
  | notFound name => s!"undefined symbol '{name}'"
  | underflow => "cannot pop the root scope"

end ScopeFault

/-- The symbols of a scope in the order of their declaration. -/
abbrev Scope := List Symbol

namespace Scope

def get? (scope : Scope) (name : String) : Option Symbol :=
  scope.find? (·.name == name)

def contains (scope : Scope) (name : String) : Bool :=
  scope.any (·.name == name)

def update (scope : Scope) (name : String) (f : Symbol → Symbol) : Scope :=
  scope.map fun symbol => if symbol.name = name then f symbol else symbol

/-- The names in a scope, in order. -/
def names (scope : Scope) : List String :=
  scope.map (·.name)

end Scope

structure Table where
  root : Scope
  /-- The scopes above the root, innermost first. -/
  inner : List Scope := []

namespace Table

/-- The types every program knows. -/
def builtins : Scope :=
  let basics := Primitive.all.map fun p => Symbol.basic p.render (.prim p) {}
  let records :=
    [{ Symbol.composite .value "Blank" [] [] {} with ty := .blank },
      Symbol.composite .value "Text" [] [] {}]
  (basics ++ records).map fun symbol => { symbol with visibility := .exported }

def initial : Table where
  root := builtins

/-- The depth of the innermost scope. -/
def depth (table : Table) : Nat :=
  table.inner.length

/-- All scopes, outermost first, so that a scope stands at its depth. -/
def scopes (table : Table) : List Scope :=
  table.root :: table.inner.reverse

def scope? (table : Table) (depth : Nat) : Option Scope :=
  table.scopes[depth]?

/-- The innermost scope. -/
def current (table : Table) : Scope :=
  table.inner.head?.getD table.root

def push (table : Table) : Table :=
  { table with inner := [] :: table.inner }

def pop (table : Table) : Except ScopeFault (Scope × Table) :=
  match table.inner with
  | [] => .error .underflow
  | scope :: outer => .ok (scope, { table with inner := outer })

/-- Puts a symbol behind those of the innermost scope. -/
def append (table : Table) (symbol : Symbol) : Table :=
  match table.inner with
  | [] => { table with root := table.root ++ [symbol] }
  | scope :: outer => { table with inner := (scope ++ [symbol]) :: outer }

/-- Declares a symbol in the innermost scope. -/
def declare (table : Table) (symbol : Symbol) : Except ScopeFault (Binding × Table) :=
  if table.current.contains symbol.name then .error (.duplicate symbol.name)
  else
    let symbol := { symbol with depth := table.depth }
    .ok (symbol.key, table.append symbol)

/-- The innermost symbol of a name. -/
def find? (table : Table) (name : String) : Option Symbol :=
  (table.inner.findSome? (·.get? name)).or (table.root.get? name)

def lookup (table : Table) (name : String) : Except ScopeFault Symbol :=
  match table.find? name with
  | some symbol => .ok symbol
  | none => .error (.notFound name)

/-- Updates a name in the first of the scopes that declares it. -/
def updateFirst (name : String) (f : Symbol → Symbol) : List Scope → Option (List Scope)
  | [] => none
  | scope :: outer =>
      if scope.contains name then some (scope.update name f :: outer)
      else (updateFirst name f outer).map (scope :: ·)

/-- Updates the innermost symbol of a name. -/
def update (table : Table) (name : String) (f : Symbol → Symbol) : Table :=
  match updateFirst name f table.inner with
  | some inner => { table with inner }
  | none => { table with root := table.root.update name f }

def setState (table : Table) (name : String) (state : Holding) : Except ScopeFault Table := do
  let _ ← table.lookup name
  return table.update name (Symbol.setState state)

def setType (table : Table) (name : String) (ty : Ty) : Except ScopeFault Table := do
  let _ ← table.lookup name
  return table.update name fun symbol => { symbol with ty }

/-- Whether values of this type are shared by reference. -/
def isReference (table : Table) : Ty → Bool
  | .named name _ => ((table.find? name).bind (·.semantics?)) == some .reference
  | _ => false

/-- Whether this is the type of a token for a value that is shared by reference. -/
def isReferenceToken (table : Table) : Ty → Bool
  | .token _ inner => table.isReference inner
  | _ => false

/-! ### Laws -/

@[simp] theorem depth_push (table : Table) : table.push.depth = table.depth + 1 := rfl

@[simp] theorem pop_push (table : Table) : table.push.pop = .ok ([], table) := rfl

@[simp] theorem depth_append (table : Table) (symbol : Symbol) :
    (table.append symbol).depth = table.depth := by
  unfold append
  split <;> simp_all [depth]

theorem length_updateFirst {name : String} {f : Symbol → Symbol} {scopes updated : List Scope}
    (h : updateFirst name f scopes = some updated) : updated.length = scopes.length := by
  induction scopes generalizing updated with
  | nil => simp [updateFirst] at h
  | cons scope outer ih =>
      simp only [updateFirst] at h
      split at h
      · cases h
        rfl
      · obtain ⟨rest, hrest, rfl⟩ := Option.map_eq_some_iff.1 h
        simp [ih hrest]

@[simp] theorem depth_update (table : Table) (name : String) (f : Symbol → Symbol) :
    (table.update name f).depth = table.depth := by
  unfold update
  split
  · rename_i inner h
    exact length_updateFirst h
  · rfl

/-- The innermost scope is searched first. -/
theorem find?_of_mem_current {table : Table} {name : String} {symbol : Symbol}
    (h : table.current.get? name = some symbol) : table.find? name = some symbol := by
  unfold find? current at *
  cases hinner : table.inner with
  | nil => simp_all
  | cons scope outer => simp_all

end Table

end Custody
