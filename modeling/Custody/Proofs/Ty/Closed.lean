import Custody.Proofs.Ty.MadeOf

/-! Types without type parameters. A parameter agrees with every type, so a type that has one in it
tells little; every way to make types out of closed types gives closed types again, and to replace
parameters closes any type. -/

namespace Custody

namespace Ty

/-- No type parameter stands in the type, at any depth. -/
def isClosed (t : Ty) : Bool :=
  t.isMadeOf (!·.isParam)

theorem permits_closed : Permits (!·.isParam) :=
  ⟨fun _ => rfl, rfl, rfl⟩

theorem isClosed_strip (t : Ty) : t.strip.isClosed = t.isClosed :=
  isMadeOf_strip t

theorem isClosed_routine {params : List Ty} {result : Ty} :
    (routine params result).isClosed = true ↔
      (∀ t ∈ params, t.isClosed = true) ∧ result.isClosed = true :=
  isMadeOf_routine

theorem isClosed_of_strip {t : Ty} (ht : t.isClosed = true) (name : String) (args : List Ty)
    (hstrip : t.strip = named name args) : ∀ arg ∈ args, arg.isClosed = true := by
  rw [← isClosed_strip, hstrip] at ht
  exact isMadeOf_named.1 ht

/-- What is taken out of a value of a closed type has a closed type. -/
theorem isClosed_element? {t element : Ty} (ht : t.isClosed = true)
    (h : t.element? = some element) : element.isClosed = true :=
  isMadeOf_element? permits_closed (isClosed_of_strip ht) h

variable {left right t : Ty} {op : BinaryOp}

theorem isClosed_binary (hleft : left.isClosed = true) (hright : right.isClosed = true)
    (h : binary left op right = .ok t) : t.isClosed = true := by
  rw [← isClosed_strip] at hleft hright
  rcases binary_eq_ok h with rfl | rfl | rfl | ⟨-, hunify⟩
  · rfl
  · rfl
  · rfl
  · rcases unify_eq_left_or_right hunify with rfl | rfl
    · exact hleft
    · exact hright

theorem isClosed_unary {op : UnaryOp} {operand : Ty} (hoperand : operand.isClosed = true)
    (h : unary op operand = .ok t) : t.isClosed = true := by
  rw [unary_eq_ok h, isClosed_strip]
  exact hoperand

end Ty

theorem Literal.isClosed_ty (value : Literal) : value.ty.isClosed = true := by
  unfold ty
  split <;> rfl

theorem Language.isClosed_settle (language : Language) {t : Ty} (h : t.isClosed = true) :
    (language.settle t).isClosed = true := by
  unfold settle
  split
  · cases language <;> rfl
  · cases language <;> rfl
  · exact h

/-- Importers see no type parameter outside of the fields of a type. -/
theorem Decl.isClosed_symbol (language : Language) (decl : Decl) :
    (decl.symbol language).ty.isClosed = true :=
  isMadeOf_symbol Ty.permits_closed language decl

namespace Table

variable {table : Table}

/-- A table that has closed types only gives closed types only. -/
theorem isClosed_resolve {type : TypeExpr} {t : Ty}
    (htable : ∀ name symbol, table.find? name = some symbol → symbol.ty.isClosed = true)
    (h : table.resolve type = .ok t) : t.isClosed = true :=
  isMadeOf_resolve Ty.permits_closed htable h

/-- The type of a field is closed whatever parameters the field is declared with. -/
theorem isClosed_memberType {object t : Ty} {property : Ident} (hobject : object.isClosed = true)
    (h : table.memberType object property = .ok t) : t.isClosed = true := by
  have hfree : ∀ leaf : Ty, leaf.isParam = false → true = true → (!leaf.isParam) = true := by
    intro leaf hparam _
    rw [hparam]
    rfl
  exact isMadeOf_memberType Ty.permits_closed hfree (Ty.isClosed_of_strip hobject)
    (fun _ _ _ field _ => Ty.isMadeOf_of_forall (fun _ => rfl) field.2) h

end Table

end Custody
