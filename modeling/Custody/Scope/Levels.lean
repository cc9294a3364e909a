import Custody.Scope.Table

/-! The table of symbols as it is stored. A level has a map from names to symbols and, apart from it,
the order in which the names were declared, and the table is a stack of levels. Neither the agreement
of map and order nor a bottom of the stack is part of the data. A call that is refused gives back the
stack it leaves, like any other. -/

namespace Custody

structure Level where
  symbols : String → Option Symbol := fun _ => none
  order : List String := []

namespace Level

def contains (level : Level) (name : String) : Bool :=
  (level.symbols name).isSome

/-- The symbols of a level in the order of their declaration. -/
def listed (level : Level) : Scope :=
  level.order.filterMap level.symbols

/-- Sets what the map has under a name. -/
def set (level : Level) (name : String) (symbol : Symbol) : Level :=
  { level with symbols := fun other => if other = name then some symbol else level.symbols other }

/-- Puts the name at the end of the order and the symbol into the map. -/
def insert (level : Level) (symbol : Symbol) : Level :=
  { level.set symbol.name symbol with order := level.order ++ [symbol.name] }

end Level

/-- A stack of levels, innermost first. -/
structure Levels where
  stack : List Level

namespace Levels

def initial : Levels where
  stack := [Table.builtins.foldl Level.insert {}]

/-- The depth of the innermost level. -/
def depth (levels : Levels) : Nat :=
  levels.stack.length - 1

def level? (levels : Levels) (depth : Nat) : Option Level :=
  levels.stack.reverse[depth]?

/-- Opens a level. The answer is its depth. -/
def push (levels : Levels) : Nat × Levels :=
  let pushed : Levels := ⟨{} :: levels.stack⟩
  (pushed.depth, pushed)

def pop (levels : Levels) : Except ScopeFault Level × Levels :=
  if levels.stack.length ≤ 1 then (.error .underflow, levels)
  else
    match levels.stack with
    | [] => (.error .underflow, levels)
    | level :: outer => (.ok level, ⟨outer⟩)

/-- Declares a symbol in the innermost level. -/
def declare (levels : Levels) (symbol : Symbol) : Except ScopeFault Binding × Levels :=
  match levels.stack with
  | [] => (.error .underflow, levels)
  | level :: outer =>
      if level.contains symbol.name then (.error (.duplicate symbol.name), levels)
      else
        let symbol := { symbol with depth := levels.depth }
        (.ok symbol.key, ⟨level.insert symbol :: outer⟩)

def lookup (levels : Levels) (name : String) : Except ScopeFault Symbol :=
  match levels.stack.findSome? (·.symbols name) with
  | some symbol => .ok symbol
  | none => .error (.notFound name)

/-- Changes what the first of the levels that has the name has under it. -/
def changeFirst (name : String) (f : Symbol → Symbol) : List Level → Option (List Level)
  | [] => none
  | level :: outer =>
      match level.symbols name with
      | some symbol => some (level.set name (f symbol) :: outer)
      | none => (changeFirst name f outer).map (level :: ·)

/-- Changes the symbol that a name is looked up to. -/
def change (levels : Levels) (name : String) (f : Symbol → Symbol) : Except ScopeFault Unit × Levels :=
  match changeFirst name f levels.stack with
  | some stack => (.ok (), ⟨stack⟩)
  | none => (.error (.notFound name), levels)

def setState (levels : Levels) (name : String) (state : Holding) : Except ScopeFault Unit × Levels :=
  levels.change name (Symbol.setState state)

def setType (levels : Levels) (name : String) (ty : Ty) : Except ScopeFault Unit × Levels :=
  levels.change name fun symbol => { symbol with ty }

def setFields (levels : Levels) (name : String) (fields : List (String × Ty)) :
    Except ScopeFault Unit × Levels :=
  levels.change name (Symbol.setFields fields)

end Levels

end Custody
