import Custody.Proofs.Scope.Table
import Custody.Proofs.Ty.Closed

/-! Types without the types of unsuffixed literals. A written type has none, and no operation puts one
into another type: a type that is found is settled, or it is as a whole that of a literal, and then it
comes from literals alone. So it is enough to settle a type where it is bound. -/

namespace Custody

namespace Ty

/-- No type of an unsuffixed literal stands in the type, at any depth. -/
def isSettled (t : Ty) : Bool :=
  t.isMadeOf (!·.isFlexible)

/-- The type is settled, or it is as a whole that of a literal, so that to bind it settles it. -/
def isFixable (t : Ty) : Bool :=
  t.isSettled || t.isFlexible

variable {t : Ty}

theorem permits_settled : Permits (!·.isFlexible) :=
  ⟨fun _ => rfl, rfl, rfl⟩

theorem isSettled_routine {params : List Ty} {result : Ty} :
    (routine params result).isSettled = true ↔
      (∀ t ∈ params, t.isSettled = true) ∧ result.isSettled = true :=
  isMadeOf_routine

theorem isSettled_strip (t : Ty) : t.strip.isSettled = t.isSettled :=
  isMadeOf_strip t

theorem isFlexible_eq_false (h : t.isSettled = true) : t.isFlexible = false := by
  cases t with
  | intLiteral => cases h
  | floatLiteral => cases h
  | _ => rfl

theorem strip_of_isFlexible (h : t.isFlexible = true) : t.strip = t := by
  cases t <;> simp_all [isFlexible, strip]

theorem isFixable_iff :
    t.isFixable = true ↔ t.isSettled = true ∨ t.isFlexible = true := by
  rw [isFixable, Bool.or_eq_true]

theorem isFixable_of_isSettled (h : t.isSettled = true) : t.isFixable = true :=
  isFixable_iff.2 (.inl h)

/-- Under a token there is no literal. -/
theorem isSettled_of_strip (ht : t.isFixable = true) (h : t.strip.isFlexible = false) :
    t.isSettled = true := by
  rcases isFixable_iff.1 ht with hsettled | hflexible
  · exact hsettled
  · rw [strip_of_isFlexible hflexible, hflexible] at h
    cases h

theorem isFixable_strip (ht : t.isFixable = true) :
    t.strip.isFixable = true ∧ t.strip.isFlexible = t.isFlexible := by
  rcases isFixable_iff.1 ht with hsettled | hflexible
  · have hstrip : t.strip.isSettled = true := (isSettled_strip t).trans hsettled
    exact ⟨isFixable_of_isSettled hstrip,
      (isFlexible_eq_false hstrip).trans (isFlexible_eq_false hsettled).symm⟩
  · rw [strip_of_isFlexible hflexible]
    exact ⟨ht, rfl⟩

/-- The arguments of a type are settled, whichever way the type has been found. -/
theorem isSettled_args (ht : t.isFixable = true) (name : String) (args : List Ty)
    (hstrip : t.strip = named name args) : ∀ arg ∈ args, arg.isSettled = true := by
  have hsettled := isSettled_of_strip ht (by rw [hstrip]; rfl)
  rw [← isSettled_strip, hstrip] at hsettled
  exact isMadeOf_named.1 hsettled

theorem isSettled_element? {element : Ty} (ht : t.isFixable = true)
    (h : t.element? = some element) : element.isSettled = true :=
  isMadeOf_element? permits_settled (isSettled_args ht) h

/-! ### Operators -/

variable {left right : Ty} {op : BinaryOp}

theorem isFlexible_of_absorbs (h : left.absorbs right = true) : right.isFlexible = true := by
  unfold absorbs at h
  split at h
  · rfl
  · rfl
  · cases h

/-- A number and a literal have the type of the number in common. -/
theorem isFlexible_of_unify (h : unify left right = some t) (ht : t.isFlexible = true) :
    left.isFlexible = true ∧ right.isFlexible = true := by
  unfold unify at h
  split_ifs at h with heq hright hleft
  · cases h
    exact ⟨ht, heq ▸ ht⟩
  · cases h
    exact ⟨isFlexible_of_absorbs hright, ht⟩
  · cases h
    exact ⟨ht, isFlexible_of_absorbs hleft⟩

/-- What two operands have in common is settled, unless both are literals. -/
theorem unify_found (hleft : left.isFixable = true) (hright : right.isFixable = true)
    (h : unify left right = some t) :
    t.isSettled = true ∨ t.isFlexible = true ∧ left.isFlexible = true ∧ right.isFlexible = true := by
  have ht : t.isFixable = true := by
    rcases unify_eq_left_or_right h with rfl | rfl
    · exact hleft
    · exact hright
  rcases isFixable_iff.1 ht with hsettled | hflexible
  · exact .inl hsettled
  · exact .inr ⟨hflexible, isFlexible_of_unify h hflexible⟩

/-- What an operation gives is settled, unless both operands are literals. -/
theorem binary_found (hleft : left.isFixable = true) (hright : right.isFixable = true)
    (h : binary left op right = .ok t) :
    t.isSettled = true ∨ t.isFlexible = true ∧ op.joins = true ∧ left.isFlexible = true ∧
      right.isFlexible = true := by
  obtain ⟨hleft', hflexible⟩ := isFixable_strip hleft
  obtain ⟨hright', hflexible'⟩ := isFixable_strip hright
  rcases binary_eq_ok h with rfl | rfl | rfl | ⟨hjoins, hunify⟩
  · exact .inl rfl
  · exact .inl rfl
  · exact .inl rfl
  · rw [← hflexible, ← hflexible']
    exact (unify_found hleft' hright' hunify).imp_right
      fun hliterals => ⟨hliterals.1, hjoins, hliterals.2⟩

theorem unary_found {op : UnaryOp} {operand : Ty} (hoperand : operand.isFixable = true)
    (h : unary op operand = .ok t) :
    t.isSettled = true ∨ t.isFlexible = true ∧ operand.isFlexible = true := by
  obtain ⟨hstrip, hflexible⟩ := isFixable_strip hoperand
  obtain rfl := unary_eq_ok h
  rw [← hflexible]
  exact (isFixable_iff.1 hstrip).imp_right fun hliteral => ⟨hliteral, hliteral⟩

/-- A type that is settled and known is accepted as one type of numbers at most. -/
theorem num_eq_of_accepts {m n : Numeric} (ht : t.isSettled = true) (hclosed : t.isClosed = true)
    (hknown : t.strip ≠ .unknown) (hm : (num m).accepts t = true) (hn : (num n).accepts t = true) :
    m = n := by
  rw [← isSettled_strip] at ht
  rw [← isClosed_strip] at hclosed
  unfold num accepts at hm hn
  generalize t.strip = base at *
  cases base with
  | prim p =>
      have hfirst : Primitive.numeric m = p := by simpa using hm
      have hsecond : Primitive.numeric n = p := by simpa using hn
      exact Primitive.numeric.inj (hfirst.trans hsecond.symm)
  | intLiteral => cases ht
  | floatLiteral => cases ht
  | param name => cases hclosed
  | unknown => exact absurd rfl hknown
  | _ => cases hm

end Ty

theorem Literal.isFixable_ty (value : Literal) : value.ty.isFixable = true := by
  unfold ty
  split <;> rfl

/-- What is settled or a literal as a whole is settled where it is bound. -/
theorem Language.isSettled_settle (language : Language) {t : Ty} (h : t.isFixable = true) :
    (language.settle t).isSettled = true := by
  unfold settle
  split
  · cases language <;> rfl
  · cases language <;> rfl
  · rename_i hint hfloat
    rcases Ty.isFixable_iff.1 h with hsettled | hflexible
    · exact hsettled
    · cases t with
      | intLiteral => exact absurd rfl hint
      | floatLiteral => exact absurd rfl hfloat
      | _ => cases hflexible

/-! ### Symbols -/

namespace Symbol

/-- The types of the symbol and of its fields are settled. -/
structure Settled (symbol : Symbol) : Prop where
  ty : symbol.ty.isSettled = true
  fields : ∀ field ∈ symbol.fields?.getD [], field.2.isSettled = true

variable {symbol : Symbol}

theorem Settled.of_ty (hty : symbol.ty.isSettled = true) (hfields : symbol.fields?.getD [] = []) :
    symbol.Settled where
  ty := hty
  fields := by
    rw [hfields]
    exact List.forall_mem_nil _

theorem Settled.similar {changed : Symbol} (hchanged : Similar symbol changed)
    (h : symbol.Settled) : changed.Settled := by
  obtain ⟨state, rfl⟩ := hchanged
  constructor
  · rw [ty_setState]
    exact h.ty
  · rw [fields?_setState]
    exact h.fields

theorem Settled.setFields {fields : List (String × Ty)}
    (hfields : ∀ field ∈ fields, field.2.isSettled = true) (h : symbol.Settled) :
    (symbol.setFields fields).Settled := by
  rcases symbol with ⟨name, kind, ty, visibility, depth, span⟩
  cases kind with
  | composite semantics old params => exact ⟨h.ty, hfields⟩
  | _ => exact h

end Symbol

/-- What importers see of a declaration is settled. -/
theorem Decl.settled_symbol (language : Language) (decl : Decl) :
    (decl.symbol language).Settled := by
  refine ⟨isMadeOf_symbol Ty.permits_settled language decl, ?_⟩
  cases decl with
  | routine routine => exact List.forall_mem_nil _
  | var decl => exact List.forall_mem_nil _
  | type decl =>
      intro field hfield
      obtain ⟨declared, -, rfl⟩ := List.mem_map.1 hfield
      exact TypeExpr.isMadeOf_written Ty.permits_settled (fun _ _ => rfl) declared.type

/-! ### Types in a table -/

namespace Table

variable {table : Table}

theorem isSettled_resolve {type : TypeExpr} {t : Ty} (htable : table.All Symbol.Settled)
    (h : table.resolve type = .ok t) : t.isSettled = true :=
  isMadeOf_resolve Ty.permits_settled (fun _ _ hfind => (htable.find? hfind).ty) h

theorem isSettled_memberType {object t : Ty} {property : Ident} (htable : table.All Symbol.Settled)
    (hobject : object.isFixable = true) (h : table.memberType object property = .ok t) :
    t.isSettled = true :=
  isMadeOf_memberType Ty.permits_settled (fun _ _ hleaf => hleaf) (Ty.isSettled_args hobject)
    (fun _ _ hfind => (htable.find? hfind).fields) h

end Table

end Custody
