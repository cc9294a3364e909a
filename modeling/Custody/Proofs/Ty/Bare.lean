import Custody.Ty.Accept
import Mathlib.Data.List.Basic

/-! Types without their tokens. A binding accepts a value of another type only for the tokens on either
side, and where a type says less than it could: it is not known, a type parameter or that of an
unsuffixed literal, or it names a type without its arguments. Where nothing of the kind stands in either
type, the two are the same up to tokens. -/

namespace Custody.Ty

mutual
/-- The type without its tokens, at every depth. The types of routines stay as they are. -/
def bare : Ty → Ty
  | token _ inner => inner.bare
  | named name args => named name (bareAll args)
  | prim p => prim p
  | intLiteral => intLiteral
  | floatLiteral => floatLiteral
  | blank => blank
  | routine params result => routine params result
  | param name => param name
  | unknown => unknown

def bareAll : List Ty → List Ty
  | [] => []
  | t :: ts => t.bare :: bareAll ts
end

mutual
/-- The type and all types that stand in it, at any depth. -/
def parts : Ty → List Ty
  | named name args => named name args :: partsAll args
  | token access inner => token access inner :: inner.parts
  | routine params result => routine params result :: (partsAll params ++ result.parts)
  | prim p => [prim p]
  | intLiteral => [intLiteral]
  | floatLiteral => [floatLiteral]
  | blank => [blank]
  | param name => [param name]
  | unknown => [unknown]

def partsAll : List Ty → List Ty
  | [] => []
  | t :: ts => t.parts ++ partsAll ts
end

/-- Whether the type agrees with types that it is not equal to: it is not known, a type parameter or
that of an unsuffixed literal. -/
def isLoose : Ty → Bool
  | unknown | param _ | intLiteral | floatLiteral => true
  | _ => false

/-- Whether the two types have the same number of arguments if they have the same name. -/
def sharesArity : Ty → Ty → Bool
  | named name args, named name' args' => name != name' || args.length == args'.length
  | _, _ => true

/-- The types mean one thing each: none of them is loose, and a name has the same number of arguments
wherever it stands. -/
structure Rigid (types : List Ty) : Prop where
  firm : ∀ t ∈ types, t.isLoose = false
  arity : ∀ t ∈ types, ∀ u ∈ types, t.sharesArity u = true

theorem Rigid.length_eq {types : List Ty} {name : String} {args args' : List Ty} (h : Rigid types)
    (hargs : named name args ∈ types) (hargs' : named name args' ∈ types) :
    args.length = args'.length := by
  have harity := h.arity _ hargs _ hargs'
  simpa [sharesArity] using harity

/-! ### Parts -/

theorem mem_parts_self (t : Ty) : t ∈ t.parts := by
  cases t <;> simp [parts]

theorem parts_strip_subset : ∀ t : Ty, t.strip.parts ⊆ t.parts
  | token access inner => by
      rw [strip_token, parts]
      exact List.Subset.trans (parts_strip_subset inner) (List.subset_cons_self _ _)
  | prim _ | intLiteral | floatLiteral | blank | named _ _ | routine _ _ | param _ | unknown =>
      List.Subset.refl _

theorem bare_strip : ∀ t : Ty, t.strip.bare = t.bare
  | token access inner => by
      rw [strip_token, bare]
      exact bare_strip inner
  | prim _ | intLiteral | floatLiteral | blank | named _ _ | routine _ _ | param _ | unknown => rfl

mutual
/-- A type without tokens has none to lose. -/
theorem bare_eq_self : ∀ t : Ty, (∀ part ∈ t.parts, part.isToken = false) → t.bare = t
  | token access inner, h => by
      have htoken := h _ (mem_parts_self _)
      cases htoken
  | named name args, h => by
      rw [parts, List.forall_mem_cons] at h
      rw [bare, bareAll_eq_self args h.2]
  | prim _, _ | intLiteral, _ | floatLiteral, _ | blank, _ | routine _ _, _ | param _, _
  | unknown, _ => rfl

theorem bareAll_eq_self :
    ∀ ts : List Ty, (∀ part ∈ partsAll ts, part.isToken = false) → bareAll ts = ts
  | [], _ => rfl
  | t :: ts, h => by
      rw [partsAll, List.forall_mem_append] at h
      rw [bareAll, bare_eq_self t h.1, bareAll_eq_self ts h.2]
end

/-! ### What is accepted -/

/-- What stands under the tokens of a type is one of its parts. -/
theorem mem_of_parts_subset {types : List Ty} {t : Ty} (h : t.parts ⊆ types) : t.strip ∈ types :=
  h (parts_strip_subset t (mem_parts_self t.strip))

theorem exists_of_isToken {t : Ty} (h : t.isToken = true) :
    ∃ access inner, t = token access inner := by
  cases t with
  | token access inner => exact ⟨access, inner, rfl⟩
  | _ => cases h

theorem accepts_unknown (t : Ty) : t.accepts .unknown = true := by
  cases t <;> simp [accepts, strip]

theorem accepts_param (t : Ty) (name : String) : t.accepts (.param name) = true := by
  cases t <;> simp [accepts, strip]

/-- A token binding accepts a plain value if what it gives access to does. -/
theorem accepts_plain {access : Access} {inner found : Ty} (h : found.isToken = false) :
    (token access inner).accepts found = inner.accepts found := by
  cases found with
  | token => cases h
  | unknown => simp [accepts, accepts_unknown]
  | param name => simp [accepts, accepts_param]
  | _ => simp [accepts]

/-- A plain type that is not loose accepts itself, and a type of its name if one of the two has no
arguments or if it accepts them one by one. -/
theorem eq_or_named_of_accepts {target value : Ty} (hplain : target.isToken = false)
    (htarget : target.isLoose = false) (hvalue : value.strip.isLoose = false)
    (h : target.accepts value = true) :
    target = value.strip ∨ ∃ name args args', target = named name args ∧
      value.strip = named name args' ∧ (args = [] ∨ args' = [] ∨ acceptsAll args args' = true) := by
  cases target with
  | token => cases hplain
  | unknown => cases htarget
  | param => cases htarget
  | intLiteral => cases htarget
  | floatLiteral => cases htarget
  | named name args =>
      cases hstrip : value.strip with
      | named other args' =>
          simp only [accepts, hstrip, Bool.and_eq_true, beq_iff_eq, Bool.or_eq_true,
            List.isEmpty_iff, or_assoc] at h
          obtain ⟨rfl, hargs⟩ := h
          exact .inr ⟨name, args, args', rfl, rfl, hargs⟩
      | _ => simp_all [accepts, isLoose]
  | _ => cases hstrip : value.strip <;> simp_all [accepts, isLoose]

mutual
/-- Among types that mean one thing each, a value is accepted only by its own type up to tokens. -/
theorem bare_eq_of_accepts {types : List Ty} (hrigid : Rigid types) :
    ∀ target value : Ty, target.parts ⊆ types → value.parts ⊆ types →
      target.accepts value = true → target.bare = value.bare
  | token access inner, value, htarget, hvalue, h => by
      rw [parts, List.cons_subset] at htarget
      rw [bare]
      by_cases hplain : value.isToken = true
      · obtain ⟨access', inner', rfl⟩ := exists_of_isToken hplain
        rw [parts, List.cons_subset] at hvalue
        rw [accepts, Bool.and_eq_true] at h
        rw [bare]
        exact bare_eq_of_accepts hrigid inner inner' htarget.2 hvalue.2 h.2
      · rw [accepts_plain (Bool.eq_false_iff.2 hplain)] at h
        exact bare_eq_of_accepts hrigid inner value htarget.2 hvalue h
  | named name args, value, htarget, hvalue, h => by
      have hstrip := List.Subset.trans (parts_strip_subset value) hvalue
      rw [parts, List.cons_subset] at htarget
      rw [← bare_strip value]
      rcases eq_or_named_of_accepts rfl (hrigid.firm _ htarget.1)
        (hrigid.firm _ (mem_of_parts_subset hvalue)) h with heq | ⟨_, _, args', hnamed, heq, hargs⟩
      · rw [heq]
      · cases hnamed
        rw [heq, parts, List.cons_subset] at hstrip
        have hlength := hrigid.length_eq htarget.1 hstrip.1
        rw [heq, bare, bare]
        rcases hargs with rfl | rfl | hargs
        · rw [List.length_eq_zero_iff.1 hlength.symm]
        · rw [List.length_eq_zero_iff.1 hlength]
        · rw [bareAll_eq_of_acceptsAll hrigid args args' htarget.2 hstrip.2 hargs]
  | prim _, value, htarget, hvalue, h | blank, value, htarget, hvalue, h
  | routine _ _, value, htarget, hvalue, h => by
      rcases eq_or_named_of_accepts rfl (hrigid.firm _ (htarget (mem_parts_self _)))
        (hrigid.firm _ (mem_of_parts_subset hvalue)) h with heq | ⟨_, _, _, hnamed, -⟩
      · rw [← bare_strip value, ← heq]
      · cases hnamed
  | intLiteral, _, htarget, _, _ | floatLiteral, _, htarget, _, _ | param _, _, htarget, _, _
  | unknown, _, htarget, _, _ => by
      cases hrigid.firm _ (htarget (mem_parts_self _))

theorem bareAll_eq_of_acceptsAll {types : List Ty} (hrigid : Rigid types) :
    ∀ targets values : List Ty, partsAll targets ⊆ types → partsAll values ⊆ types →
      acceptsAll targets values = true → bareAll targets = bareAll values
  | [], [], _, _, _ => rfl
  | [], _ :: _, _, _, h => by
      rw [acceptsAll] at h
      · cases h
      all_goals simp
  | _ :: _, [], _, _, h => by
      rw [acceptsAll] at h
      · cases h
      all_goals simp
  | t :: ts, v :: vs, htargets, hvalues, h => by
      rw [partsAll, List.append_subset] at htargets hvalues
      rw [acceptsAll, Bool.and_eq_true] at h
      rw [bareAll, bareAll, bare_eq_of_accepts hrigid t v htargets.1 hvalues.1 h.1,
        bareAll_eq_of_acceptsAll hrigid ts vs htargets.2 hvalues.2 h.2]
end

/-- A binding never converts. Among types that mean one thing each, what it accepts has its own type up
to tokens, and where there are no tokens it accepts its own type and no other. -/
theorem accepts_never_converts {target value : Ty} (h : Rigid (target.parts ++ value.parts)) :
    (target.accepts value = true → target.bare = value.bare) ∧
    ((∀ part ∈ target.parts ++ value.parts, part.isToken = false) →
      (target.accepts value = true ↔ target = value)) := by
  have hbare : target.accepts value = true → target.bare = value.bare :=
    bare_eq_of_accepts h target value (List.subset_append_left _ _) (List.subset_append_right _ _)
  refine ⟨hbare, fun hplain => ?_⟩
  rw [List.forall_mem_append] at hplain
  constructor
  · intro haccepts
    calc target = target.bare := (bare_eq_self target hplain.1).symm
      _ = value.bare := hbare haccepts
      _ = value := bare_eq_self value hplain.2
  · rintro rfl
    exact accepts_refl target

/-- In particular a viewing token for a list of numbers accepts a list of tokens for them, and lists
are accepted only by lists of the same elements. -/
theorem accepts_never_converts_nested :
    let viewed := token .viewing (named "List" [num .s32])
    let observed := named "List" [token .observing (num .s32)]
    let numbers := named "List" [num .s32]
    let bytes := named "List" [num .u8]
    (Rigid (viewed.parts ++ observed.parts) ∧ viewed.accepts observed = true ∧ viewed ≠ observed ∧
      viewed.bare = observed.bare) ∧
    Rigid (numbers.parts ++ bytes.parts) ∧ numbers.accepts bytes = false := by
  intro viewed observed numbers bytes
  have haccepts : viewed.accepts observed = true := by decide
  have hnested : Rigid (viewed.parts ++ observed.parts) := ⟨by decide, by decide⟩
  have hplain : Rigid (numbers.parts ++ bytes.parts) := ⟨by decide, by decide⟩
  refine ⟨⟨hnested, haccepts, by decide, (accepts_never_converts hnested).1 haccepts⟩, hplain, ?_⟩
  rw [Bool.eq_false_iff, ne_eq, (accepts_never_converts hplain).2 (by decide)]
  decide

end Custody.Ty
