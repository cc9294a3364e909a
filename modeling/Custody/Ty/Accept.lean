import Custody.Ty.Basic

/-! Which values a binding of a type accepts, the common type of two numbers, and the replacement of
type parameters. -/

namespace Custody.Ty

mutual
/-- Whether a binding of type `target` accepts a value of type `value`.

Types agree if they are equal up to what is not known. A token binding takes a plain value, which
is lent for the time of a call, and a viewing one takes every token. A plain binding takes what is
under a token. An unsuffixed literal fits each type of its family, and a named type without
arguments agrees with all its instances. -/
def accepts : (target value : Ty) → Bool
  | unknown, _ => true
  | param _, _ => true
  | token a t, value =>
      match value with
      | unknown | param _ => true
      | token b v => (a == b || a == .viewing) && t.accepts v
      | v => t.accepts v
  | prim p, value =>
      match value.strip with
      | unknown | param _ => true
      | prim q => p == q
      | intLiteral => p.isInteger
      | floatLiteral => p.isFractional
      | _ => false
  | named m ts, value =>
      match value.strip with
      | unknown | param _ => true
      | intLiteral => m == "Integer"
      | floatLiteral => m == "Decimal"
      | named n vs => m == n && (ts.isEmpty || vs.isEmpty || acceptsAll ts vs)
      | _ => false
  | intLiteral, value =>
      match value.strip with
      | unknown | param _ | intLiteral => true
      | _ => false
  | floatLiteral, value =>
      match value.strip with
      | unknown | param _ | floatLiteral => true
      | _ => false
  | blank, value =>
      match value.strip with
      | unknown | param _ | blank => true
      | _ => false
  | routine ps r, value =>
      match value.strip with
      | unknown | param _ => true
      | routine qs s => decide (ps = qs ∧ r = s)
      | _ => false

/-- The same for lists of one length. -/
def acceptsAll : (targets values : List Ty) → Bool
  | [], [] => true
  | t :: ts, v :: vs => t.accepts v && acceptsAll ts vs
  | _, _ => false
end

/-- Whether an unsuffixed literal can take the type `t`. -/
def absorbs (t literal : Ty) : Bool :=
  match literal with
  | intLiteral => t.isInteger
  | floatLiteral => t.isFractional
  | _ => false

/-- The type two numbers have in common: numbers do not convert, but a literal adapts. -/
def unify (left right : Ty) : Option Ty :=
  if left = right then some left
  else if right.absorbs left then some right
  else if left.absorbs right then some left
  else none

/-- The type of what an index or a loop takes out of a value. -/
def element? (t : Ty) : Option Ty :=
  match t.strip with
  | unknown => some unknown
  | named name args => if name == "Text" then some letter else args.head?
  | _ => none

/-- What is bound to a name. Of several bindings the last one counts. -/
def bound? (name : String) : List (String × Ty) → Option Ty
  | [] => none
  | (n, t) :: rest =>
      match bound? name rest with
      | some later => some later
      | none => if n = name then some t else none

mutual
/-- Replaces type parameters. One without a binding becomes unknown. -/
def subst (bindings : List (String × Ty)) : Ty → Ty
  | param name => (bound? name bindings).getD unknown
  | named name args => named name (substAll bindings args)
  | token a t => token a (t.subst bindings)
  | routine ps r => routine (substAll bindings ps) (r.subst bindings)
  | prim p => prim p
  | intLiteral => intLiteral
  | floatLiteral => floatLiteral
  | blank => blank
  | unknown => unknown

def substAll (bindings : List (String × Ty)) : List Ty → List Ty
  | [] => []
  | t :: ts => t.subst bindings :: substAll bindings ts
end

/-! ### Laws -/

mutual
/-- Every binding accepts a value of its own type. -/
theorem accepts_refl : ∀ t : Ty, t.accepts t = true
  | unknown => by rw [accepts]
  | param _ => by rw [accepts]
  | token a t => by simp [accepts, accepts_refl t]
  | prim p => by simp [accepts, strip]
  | named m ts => by simp [accepts, strip, acceptsAll_refl ts]
  | intLiteral => by simp [accepts, strip]
  | floatLiteral => by simp [accepts, strip]
  | blank => by simp [accepts, strip]
  | routine ps r => by simp [accepts, strip]

theorem acceptsAll_refl : ∀ ts : List Ty, acceptsAll ts ts = true
  | [] => by rw [acceptsAll]
  | t :: ts => by simp [acceptsAll, accepts_refl t, acceptsAll_refl ts]
end

end Custody.Ty
