/-! The tree of tables that a settings document describes, as far as settings have a use for it.
Tables come from headers, from dotted keys and from inline braces, and which of them may be
extended later depends on where they came from. -/

namespace Custody.Settings

/-- Where a table came from. -/
inductive Origin where
  /-- Written in braces; it is complete. -/
  | inline
  /-- Named by a header of its own. -/
  | header
  /-- Implied by a header for a table inside of it. -/
  | implied
  /-- Implied by a dotted key. -/
  | dotted
  deriving DecidableEq

inductive Node where
  | text (value : String)
  | flag (value : Bool)
  | emptyList
  | table (origin : Origin) (entries : List (String × Node))

abbrev Entries := List (String × Node)

namespace Entries

def get? (entries : Entries) (key : String) : Option Node :=
  List.lookup key entries

/-- Adds an entry, or replaces the one of its key. -/
def set (entries : Entries) (key : String) (node : Node) : Entries :=
  if entries.any (·.1 == key) then
    entries.map fun entry => if entry.1 == key then (key, node) else entry
  else entries ++ [(key, node)]

/-- Assigns a value to a key inside of the tables that `tables` leads to. A key is assigned once,
and a dotted key extends only tables that dotted keys have made. -/
def assign : (entries : Entries) → (tables : List String) → (key : String) → Node → Option Entries
  | entries, [], key, value =>
      match entries.get? key with
      | some _ => none
      | none => some (entries.set key value)
  | entries, name :: tables, key, value =>
      match entries.get? name with
      | none => do
          let inner ← assign [] tables key value
          return entries.set name (.table .dotted inner)
      | some (.table origin inner) =>
          if origin = .dotted ∨ (origin = .implied ∧ tables ≠ []) then do
            let inner ← assign inner tables key value
            return entries.set name (.table origin inner)
          else none
      | some _ => none

/-- Declares the table that a header names. A header names each table once. -/
def declare : (entries : Entries) → (tables : List String) → (name : String) → Option Entries
  | entries, [], name =>
      match entries.get? name with
      | none => some (entries.set name (.table .header []))
      | some (.table .implied inner) => some (entries.set name (.table .header inner))
      | some _ => none
  | entries, table :: tables, name =>
      match entries.get? table with
      | none => do
          let inner ← declare [] tables name
          return entries.set table (.table .implied inner)
      | some (.table .inline _) => none
      | some (.table origin inner) => do
          let inner ← declare inner tables name
          return entries.set table (.table origin inner)
      | some _ => none

/-- Changes the entries of the table that a header has named. -/
def within : (entries : Entries) → (tables : List String) →
    (change : Entries → Option Entries) → Option Entries
  | entries, [], change => change entries
  | entries, table :: tables, change =>
      match entries.get? table with
      | some (.table origin inner) => do
          let inner ← within inner tables change
          return entries.set table (.table origin inner)
      | _ => none

end Entries

/-- One statement of a document. Keys are never without a last name. -/
inductive Line where
  | assign (tables : List String) (key : String) (value : Node)
  | header (tables : List String) (name : String)

/-- The entries that a document describes, if its statements agree. The first argument is the
table of the last header. -/
def build : (here : List String) → Entries → List Line → Option Entries
  | _, entries, [] => some entries
  | here, entries, .assign tables key value :: lines => do
      let entries ← entries.within here (·.assign tables key value)
      build here entries lines
  | _, entries, .header tables name :: lines => do
      let entries ← entries.declare tables name
      build (tables ++ [name]) entries lines

end Custody.Settings
