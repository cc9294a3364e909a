import Custody.Proofs.Check.Fault

/-! Types all of whose leaves pass a test. The operations on types only take types apart and put them
together again, so that what they make out of such types is such a type. What a test must accept for
that is little: the primitive types, the type of what has no value, and the type that is not known. -/

namespace Custody

/-- Whether the operator gives what its operands have in common. -/
def BinaryOp.joins (op : BinaryOp) : Bool :=
  match op.family with
  | .arithmetic | .bitwise => true
  | .comparison | .logical => false

namespace Ty

def isParam : Ty → Bool
  | param _ => true
  | _ => false

mutual
/-- All leaves of the type, at any depth, pass the test. -/
def isMadeOf (leaf : Ty → Bool) : Ty → Bool
  | named _ args => areMadeOf leaf args
  | token _ inner => inner.isMadeOf leaf
  | routine params result => areMadeOf leaf params && result.isMadeOf leaf
  | prim p => leaf (prim p)
  | intLiteral => leaf intLiteral
  | floatLiteral => leaf floatLiteral
  | blank => leaf blank
  | param name => leaf (param name)
  | unknown => leaf unknown

def areMadeOf (leaf : Ty → Bool) : List Ty → Bool
  | [] => true
  | t :: ts => t.isMadeOf leaf && areMadeOf leaf ts
end

/-- The leaves that the rules themselves put into types pass the test. -/
structure Permits (leaf : Ty → Bool) : Prop where
  prim : ∀ p, leaf (prim p) = true
  blank : leaf blank = true
  unknown : leaf unknown = true

variable {leaf free : Ty → Bool} {t : Ty}

theorem areMadeOf_iff {ts : List Ty} :
    areMadeOf leaf ts = true ↔ ∀ t ∈ ts, t.isMadeOf leaf = true := by
  induction ts with
  | nil => simp [areMadeOf]
  | cons t ts ih => simp [areMadeOf, ih]

theorem isMadeOf_named {name : String} {args : List Ty} :
    (named name args).isMadeOf leaf = true ↔ ∀ t ∈ args, t.isMadeOf leaf = true := by
  rw [isMadeOf, areMadeOf_iff]

theorem isMadeOf_routine {params : List Ty} {result : Ty} :
    (routine params result).isMadeOf leaf = true ↔
      (∀ t ∈ params, t.isMadeOf leaf = true) ∧ result.isMadeOf leaf = true := by
  rw [isMadeOf, Bool.and_eq_true, areMadeOf_iff]

theorem isMadeOf_strip : ∀ t : Ty, t.strip.isMadeOf leaf = t.isMadeOf leaf
  | token _ inner => by
      rw [strip_token, isMadeOf]
      exact isMadeOf_strip inner
  | prim _ | intLiteral | floatLiteral | blank | named _ _ | routine _ _ | param _ | unknown => rfl

mutual
theorem isMadeOf_of_forall (h : ∀ t, leaf t = true) : ∀ t : Ty, t.isMadeOf leaf = true
  | named _ args => by
      rw [isMadeOf]
      exact areMadeOf_of_forall h args
  | token _ inner => by
      rw [isMadeOf]
      exact isMadeOf_of_forall h inner
  | routine params result => by
      rw [isMadeOf, areMadeOf_of_forall h params, isMadeOf_of_forall h result]
      rfl
  | prim _ | intLiteral | floatLiteral | blank | param _ | unknown => h _

theorem areMadeOf_of_forall (h : ∀ t, leaf t = true) : ∀ ts : List Ty, areMadeOf leaf ts = true
  | [] => rfl
  | t :: ts => by
      rw [areMadeOf, isMadeOf_of_forall h t, areMadeOf_of_forall h ts]
      rfl
end

/-! ### Elements -/

/-- An element is a part of what it is taken out of, or a letter. -/
theorem isMadeOf_element? {element : Ty} (hleaf : Permits leaf)
    (ht : ∀ name args, t.strip = named name args → ∀ arg ∈ args, arg.isMadeOf leaf = true)
    (h : t.element? = some element) : element.isMadeOf leaf = true := by
  unfold element? at h
  split at h
  · cases h
    exact hleaf.unknown
  · rename_i name args hstrip
    split_ifs at h
    · cases h
      exact hleaf.prim _
    · exact ht name args hstrip element (List.mem_of_head? h)
  · cases h

/-! ### Replacing parameters -/

theorem bound?_eq_some {name : String} {bindings : List (String × Ty)}
    (h : bound? name bindings = some t) : (name, t) ∈ bindings := by
  induction bindings with
  | nil => cases h
  | cons binding rest ih =>
      obtain ⟨other, ty⟩ := binding
      rw [bound?] at h
      split at h
      · rename_i hlater
        cases h
        exact List.mem_cons_of_mem _ (ih hlater)
      · split_ifs at h with hname
        cases h
        rw [hname]
        exact List.mem_cons_self

mutual
/-- The leaves that are no parameters stay, and have to pass the test already. -/
theorem isMadeOf_subst {bindings : List (String × Ty)} (hleaf : Permits leaf)
    (hbindings : ∀ binding ∈ bindings, binding.2.isMadeOf leaf = true)
    (hfree : ∀ t, t.isParam = false → free t = true → leaf t = true) :
    ∀ t : Ty, t.isMadeOf free = true → (t.subst bindings).isMadeOf leaf = true
  | param name, _ => by
      rw [subst]
      cases hbound : bound? name bindings with
      | none => exact hleaf.unknown
      | some t => exact hbindings _ (bound?_eq_some hbound)
  | named _ args, h => by
      rw [isMadeOf] at h
      rw [subst, isMadeOf]
      exact areMadeOf_substAll hleaf hbindings hfree args h
  | token _ inner, h => by
      rw [isMadeOf] at h
      rw [subst, isMadeOf]
      exact isMadeOf_subst hleaf hbindings hfree inner h
  | routine params result, h => by
      rw [isMadeOf, Bool.and_eq_true] at h
      rw [subst, isMadeOf, areMadeOf_substAll hleaf hbindings hfree params h.1,
        isMadeOf_subst hleaf hbindings hfree result h.2]
      rfl
  | prim _, h | intLiteral, h | floatLiteral, h | blank, h | unknown, h => hfree _ rfl h

theorem areMadeOf_substAll {bindings : List (String × Ty)} (hleaf : Permits leaf)
    (hbindings : ∀ binding ∈ bindings, binding.2.isMadeOf leaf = true)
    (hfree : ∀ t, t.isParam = false → free t = true → leaf t = true) :
    ∀ ts : List Ty, areMadeOf free ts = true → areMadeOf leaf (substAll bindings ts) = true
  | [], _ => rfl
  | t :: ts, h => by
      rw [areMadeOf, Bool.and_eq_true] at h
      rw [substAll, areMadeOf, isMadeOf_subst hleaf hbindings hfree t h.1,
        areMadeOf_substAll hleaf hbindings hfree ts h.2]
      rfl
end

/-! ### Operators -/

variable {left right : Ty} {op : BinaryOp}

theorem unify_eq_left_or_right (h : unify left right = some t) : t = left ∨ t = right := by
  unfold unify at h
  split_ifs at h <;> cases h
  · exact .inl rfl
  · exact .inr rfl
  · exact .inl rfl

theorem unify_of_unifyOperands (h : unifyOperands left op right = .ok t) :
    unify left right = some t := by
  unfold unifyOperands at h
  split at h
  · rename_i found hfound
    cases h
    exact hfound
  · cases h

/-- What an operation gives does not depend on the operands, or it is what they have in common. -/
theorem binaryPlain_eq_ok (h : binaryPlain left op right = .ok t) :
    t = bool ∨ t = text ∨ op.joins = true ∧ unify left right = some t := by
  unfold binaryPlain at h
  split at h
  · split_ifs at h
    cases h
    exact .inl rfl
  · split_ifs at h
    · obtain ⟨common, -, h⟩ := exists_of_bind_eq_ok h
      cases h
      exact .inl rfl
    · cases h
      exact .inl rfl
  · rename_i hfamily
    split_ifs at h
    exact .inr (.inr ⟨by simp [BinaryOp.joins, hfamily], unify_of_unifyOperands h⟩)
  · rename_i hfamily
    split_ifs at h
    · cases h
      exact .inr (.inl rfl)
    · exact .inr (.inr ⟨by simp [BinaryOp.joins, hfamily], unify_of_unifyOperands h⟩)

theorem binary_eq_ok (h : binary left op right = .ok t) :
    t = bool ∨ t = text ∨ t = unknown ∨
      op.joins = true ∧ unify left.strip right.strip = some t := by
  unfold binary at h
  split_ifs at h
  · cases h
    unfold binaryUnknown
    split
    · exact .inl rfl
    · exact .inl rfl
    · exact .inr (.inr (.inl rfl))
    · exact .inr (.inr (.inl rfl))
  · exact (binaryPlain_eq_ok h).imp_right (Or.imp_right .inr)

theorem unary_eq_ok {op : UnaryOp} {operand : Ty} (h : unary op operand = .ok t) :
    t = operand.strip := by
  unfold unary at h
  simp only at h
  split_ifs at h with hunknown
  · cases h
    exact hunknown.symm
  · cases h
    rfl

end Ty

/-! ### Written types -/

variable {leaf : Ty → Bool}

/-- A literal that is bound has a primitive type, or one without parts. -/
theorem Literal.isMadeOf_settle (hleaf : Ty.Permits leaf) (language : Language) (value : Literal) :
    (language.settle value.ty).isMadeOf leaf = true := by
  unfold ty
  split
  case h_3 | h_4 =>
    cases language
    · exact hleaf.prim _
    · rfl
  case h_6 => rfl
  all_goals exact hleaf.prim _

mutual
theorem TypeExpr.isMadeOf_written (hleaf : Ty.Permits leaf) {params : List String}
    (hparams : ∀ name ∈ params, leaf (.param name) = true) :
    ∀ type : TypeExpr, (type.written params).isMadeOf leaf = true
  | .blank _ => hleaf.blank
  | .named _ name args => by
      have hargs := areMadeOf_writtenAll hleaf hparams args
      rw [written]
      split
      · split
        · rename_i inner hinner
          rw [hinner, Ty.areMadeOf_iff] at hargs
          exact hargs inner List.mem_cons_self
        · exact hleaf.unknown
      · split_ifs with hname
        · exact hparams _ hname
        · split
          · exact hleaf.prim _
          · exact hleaf.blank
        · split
          · exact hleaf.prim _
          · exact hargs

theorem TypeExpr.areMadeOf_writtenAll (hleaf : Ty.Permits leaf) {params : List String}
    (hparams : ∀ name ∈ params, leaf (.param name) = true) :
    ∀ types : List TypeExpr, Ty.areMadeOf leaf (writtenAll params types) = true
  | [] => rfl
  | type :: types => by
      rw [writtenAll, Ty.areMadeOf, isMadeOf_written hleaf hparams type,
        areMadeOf_writtenAll hleaf hparams types]
      rfl
end

/-- Importers see a routine and a variable with the types that are written or that their literals
have, and a type under its name. -/
theorem Decl.isMadeOf_symbol (hleaf : Ty.Permits leaf) (language : Language)
    (decl : Decl) : (decl.symbol language).ty.isMadeOf leaf = true := by
  have hwritten : ∀ type : TypeExpr, (type.written []).isMadeOf leaf = true :=
    TypeExpr.isMadeOf_written hleaf (List.forall_mem_nil _)
  cases decl with
  | routine routine =>
      refine Ty.isMadeOf_routine.2 ⟨fun t ht => ?_, ?_⟩
      · obtain ⟨param, -, rfl⟩ := List.mem_map.1 ht
        exact hwritten param.type
      · cases routine.result with
        | none => exact hleaf.blank
        | some type => exact hwritten type
  | type decl => rfl
  | var decl =>
      change (decl.signature language).isMadeOf leaf = true
      unfold VarDecl.signature
      split
      · exact hwritten _
      · exact Literal.isMadeOf_settle hleaf language _
      · exact hleaf.unknown

/-! ### Types in a table -/

namespace Table

variable {free : Ty → Bool} {table : Table}

mutual
theorem isMadeOf_resolve (hleaf : Ty.Permits leaf)
    (htable : ∀ name symbol, table.find? name = some symbol → symbol.ty.isMadeOf leaf = true) :
    ∀ {type : TypeExpr} {t : Ty}, table.resolve type = .ok t → t.isMadeOf leaf = true
  | .blank _, _, h => by
      cases h
      exact hleaf.blank
  | .named span name args, t, h => by
      rw [resolve] at h
      obtain ⟨tys, hargs, h⟩ := exists_of_bind_eq_ok h
      have hall := isMadeOf_resolveAll hleaf htable hargs
      split at h
      · split at h
        · rename_i inner
          cases h
          rw [Ty.isMadeOf]
          exact hall inner List.mem_cons_self
        · cases h
      · split at h
        · cases h
        · rename_i symbol hfind
          split_ifs at h
          · cases h
            exact htable _ symbol hfind
          · cases h
            exact Ty.isMadeOf_named.2 hall

theorem isMadeOf_resolveAll (hleaf : Ty.Permits leaf)
    (htable : ∀ name symbol, table.find? name = some symbol → symbol.ty.isMadeOf leaf = true) :
    ∀ {types : List TypeExpr} {tys : List Ty},
      resolveAll table types = .ok tys → ∀ t ∈ tys, t.isMadeOf leaf = true
  | [], _, h => by
      cases h
      exact List.forall_mem_nil _
  | type :: types, _, h => by
      rw [resolveAll] at h
      obtain ⟨ty, htype, h⟩ := exists_of_bind_eq_ok h
      obtain ⟨tys, htypes, h⟩ := exists_of_bind_eq_ok h
      cases h
      exact List.forall_mem_cons.2
        ⟨isMadeOf_resolve hleaf htable htype, isMadeOf_resolveAll hleaf htable htypes⟩
end

/-- The type of a field is the declared one with the arguments of the type put in. -/
theorem isMadeOf_memberType {object t : Ty} {property : Ident} (hleaf : Ty.Permits leaf)
    (hfree : ∀ t : Ty, t.isParam = false → free t = true → leaf t = true)
    (hobject : ∀ name args, object.strip = .named name args → ∀ arg ∈ args,
      arg.isMadeOf leaf = true)
    (hfields : ∀ name symbol, table.find? name = some symbol →
      ∀ field ∈ symbol.fields?.getD [], field.2.isMadeOf free = true)
    (h : table.memberType object property = .ok t) : t.isMadeOf leaf = true := by
  unfold memberType at h
  simp only at h
  split at h
  · cases h
    exact hleaf.unknown
  · rename_i name args hstrip
    split at h
    · cases h
    · rename_i symbol hfind
      split at h <;> cases h
      rename_i field hlookup
      have hfield : (property.name, field) ∈ symbol.fields?.getD [] := by
        obtain ⟨before, after, hsplit, -⟩ := List.lookup_eq_some_iff.1 hlookup
        simp [hsplit]
      have hbindings : ∀ binding ∈ symbol.params.zip args, binding.2.isMadeOf leaf = true :=
        fun binding hbinding => hobject name args hstrip _ (List.of_mem_zip hbinding).2
      exact Ty.isMadeOf_subst hleaf hbindings hfree field (hfields name symbol hfind _ hfield)
  · cases h

end Table

end Custody
