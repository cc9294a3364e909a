import Custody.Ty.Basic

/-! The two languages and what sets them apart. In RazorForge a value has one owner and moves; in
Suflae values are shared handles. -/

namespace Custody

inductive Language where
  | razorForge
  | suflae
  deriving DecidableEq

namespace Language

def render : Language → String
  | razorForge => "RazorForge"
  | suflae => "Suflae"

instance : ToString Language := ⟨render⟩

/-- The language of files with this extension. -/
def ofExtension? (extension : String) : Option Language :=
  if extension = "rf" then some razorForge
  else if extension = "sf" then some suflae
  else none

/-- Whether taking over a value of reference semantics from a variable leaves it without one. -/
def moves : Language → Bool
  | razorForge => true
  | suflae => false

def supportsAccess : Language → Access → Bool
  | razorForge, _ => true
  | suflae, access => access == .seizing || access == .observing

/-- `danger!` and `mayhem!` blocks. -/
def supportsUnsafeBlocks : Language → Bool
  | razorForge => true
  | suflae => false

def supportsUsurping : Language → Bool
  | razorForge => true
  | suflae => false

/-- The type a binding takes over from an unsuffixed integer literal. -/
def integer : Language → Ty
  | razorForge => .num .s64
  | suflae => .plain "Integer"

/-- The type a binding takes over from an unsuffixed fractional literal. -/
def fractional : Language → Ty
  | razorForge => .num .f64
  | suflae => .plain "Decimal"

/-- The type with which a value is bound that has type `t`. -/
def settle (language : Language) (t : Ty) : Ty :=
  match t with
  | .intLiteral => language.integer
  | .floatLiteral => language.fractional
  | t => t

/-- The modules whose exports every program sees, in the order in which they are loaded. -/
def prelude : Language → List String
  | razorForge => ["core/Maybe", "core/Result", "core/Lookup"]
  | suflae =>
      ["core/Maybe", "core/Result", "core/Lookup", "numeric/Integer", "numeric/Decimal",
        "text/Text", "collections/List", "collections/Dict", "collections/Set",
        "collections/FixedList", "collections/FixedDict", "collections/FixedSet",
        "collections/ValueList", "collections/ValueDict", "collections/ValueSet"]

end Language

end Custody
