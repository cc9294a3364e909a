import Custody.Proofs.Ty.Settled

/-! What operators ask of their operands. There are two families of numbers, and within a family one
type does not convert into another: two numbers have a type in common if they have the same type, or
if one of them is an unsuffixed literal and the other one is of its family. Which of the operands
stands on the left does not matter as long as none of them is a type parameter. -/

namespace Custody

inductive NumberFamily where
  | whole
  | fractional
  deriving DecidableEq

namespace NumberFamily

/-- The type of an unsuffixed literal of the family. -/
def literal : NumberFamily → Ty
  | whole => .intLiteral
  | fractional => .floatLiteral

/-- The name of the type of numbers without bounds. -/
def unbounded : NumberFamily → String
  | whole => "Integer"
  | fractional => "Decimal"

/-- Whether a type passes for one of the family. -/
def holds : NumberFamily → Ty → Bool
  | whole, t => t.isInteger
  | fractional, t => t.isFractional

end NumberFamily

def Numeric.family (n : Numeric) : NumberFamily :=
  if n.isFractional then .fractional else .whole

namespace Ty

variable {left right t u : Ty} {op : BinaryOp} {family : NumberFamily}

/-! ### Numbers -/

/-- The types of numbers, each in its family. -/
inductive Number : NumberFamily → Ty → Prop
  | sized (n : Numeric) : Number n.family (num n)
  | unbounded (family : NumberFamily) (args : List Ty) : Number family (named family.unbounded args)
  | literal (family : NumberFamily) : Number family family.literal

/-- The type is one of numbers, of whichever family. -/
def IsNumber (t : Ty) : Prop :=
  ∃ family, Number family t

/-- Two types have a type of numbers in common: they are the same, or they are of one family and one
of them is that of a literal. -/
def Matching (left right : Ty) : Prop :=
  left = right ∨ ∃ family, Number family left ∧ Number family right ∧
    (left = family.literal ∨ right = family.literal)

theorem number_num {n : Numeric} (h : n.family = family) : Number family (num n) :=
  h ▸ .sized n

theorem number_iff : Number family t ↔ family.holds t = true := by
  constructor
  · rintro (n | ⟨family, args⟩ | family)
    · cases n <;> rfl
    · cases family <;> rfl
    · cases family <;> rfl
  · intro h
    cases t with
    | prim p =>
        cases p with
        | numeric n =>
            refine number_num ?_
            cases family <;> simp_all [NumberFamily.holds, isInteger, isFractional,
              Primitive.isInteger, Primitive.isFractional, Numeric.isInteger, Numeric.family]
        | _ => cases family <;> cases h
    | named name args =>
        have hname : name = family.unbounded := by
          cases family <;>
            simpa [NumberFamily.holds, NumberFamily.unbounded, isInteger, isFractional] using h
        rw [hname]
        exact .unbounded family args
    | intLiteral =>
        cases family with
        | whole => exact .literal .whole
        | fractional => cases h
    | floatLiteral =>
        cases family with
        | whole => cases h
        | fractional => exact .literal .fractional
    | _ => cases family <;> cases h

theorem isNumber_iff : t.IsNumber ↔ t.isNumeric = true := by
  rw [isNumeric, Bool.or_eq_true]
  constructor
  · rintro ⟨family, h⟩
    rw [number_iff] at h
    cases family with
    | whole => exact .inl h
    | fractional => exact .inr h
  · rintro (h | h)
    · exact ⟨.whole, number_iff.2 h⟩
    · exact ⟨.fractional, number_iff.2 h⟩

theorem isNumeric_of_isInteger (h : t.isInteger = true) : t.isNumeric = true := by
  rw [isNumeric, h, Bool.true_or]

theorem ne_unknown_of_isNumeric (h : t.isNumeric = true) : t ≠ unknown := by
  rintro rfl
  cases h

/-! ### What two numbers have in common -/

theorem exists_literal_of_isFlexible (h : t.isFlexible = true) :
    ∃ family : NumberFamily, t = family.literal := by
  cases t with
  | intLiteral => exact ⟨.whole, rfl⟩
  | floatLiteral => exact ⟨.fractional, rfl⟩
  | _ => cases h

theorem absorbs_literal (t : Ty) (family : NumberFamily) :
    t.absorbs family.literal = family.holds t := by
  cases family <;> rfl

/-- A literal takes the types of its family and no other. -/
theorem absorbs_iff : t.absorbs u = true ↔ ∃ family, u = family.literal ∧ Number family t := by
  constructor
  · intro h
    obtain ⟨family, rfl⟩ := exists_literal_of_isFlexible (isFlexible_of_absorbs h)
    rw [absorbs_literal] at h
    exact ⟨family, rfl, number_iff.2 h⟩
  · rintro ⟨family, rfl, h⟩
    rw [absorbs_literal]
    exact number_iff.1 h

/-- Two literals that take each other's type have the same one. -/
theorem eq_of_absorbs (h : t.absorbs u = true) (h' : u.absorbs t = true) : t = u := by
  obtain ⟨family, rfl, hnumber⟩ := absorbs_iff.1 h
  obtain ⟨other, rfl, -⟩ := absorbs_iff.1 h'
  rw [number_iff] at hnumber
  cases family with
  | whole =>
      cases other with
      | whole => rfl
      | fractional => cases hnumber
  | fractional =>
      cases other with
      | whole => cases hnumber
      | fractional => rfl

theorem matching_iff :
    Matching left right ↔
      left = right ∨ right.absorbs left = true ∨ left.absorbs right = true := by
  simp only [absorbs_iff]
  constructor
  · rintro (heq | ⟨family, hleft, hright, hliteral | hliteral⟩)
    · exact .inl heq
    · exact .inr (.inl ⟨family, hliteral, hright⟩)
    · exact .inr (.inr ⟨family, hliteral, hleft⟩)
  · rintro (heq | ⟨family, rfl, hright⟩ | ⟨family, rfl, hleft⟩)
    · exact .inl heq
    · exact .inr ⟨family, .literal family, hright, .inl rfl⟩
    · exact .inr ⟨family, hleft, .literal family, .inr rfl⟩

theorem exists_unify_iff : (∃ t, unify left right = some t) ↔ Matching left right := by
  rw [matching_iff]
  unfold unify
  split_ifs <;> simp_all

theorem unify_comm (left right : Ty) : unify left right = unify right left := by
  by_cases heq : left = right
  · rw [heq]
  · have hnot : ¬ (right.absorbs left = true ∧ left.absorbs right = true) :=
      fun h => heq (eq_of_absorbs h.2 h.1)
    unfold unify
    rw [if_neg heq, if_neg (Ne.symm heq)]
    split_ifs <;> simp_all

theorem accepts_of_absorbs (h : t.absorbs u = true) : t.accepts u = true := by
  obtain ⟨family, rfl, hnumber⟩ := absorbs_iff.1 h
  cases hnumber with
  | sized n => cases n <;> rfl
  | unbounded family args =>
      cases family <;> simp [accepts, strip, NumberFamily.literal, NumberFamily.unbounded]
  | literal family => exact accepts_refl _

/-- Both operands can be put where what they have in common is expected. -/
theorem accepts_of_unify (h : unify left right = some t) :
    t.accepts left = true ∧ t.accepts right = true := by
  unfold unify at h
  split_ifs at h with heq hright hleft
  · cases h
    exact ⟨accepts_refl _, heq ▸ accepts_refl _⟩
  · cases h
    exact ⟨accepts_of_absorbs hright, accepts_refl _⟩
  · cases h
    exact ⟨accepts_refl _, accepts_of_absorbs hleft⟩

theorem unifyOperands_eq_ok :
    unifyOperands left op right = .ok t ↔ unify left right = some t := by
  unfold unifyOperands
  split <;> simp_all

theorem unifyOperands_of_not_matching (h : ¬ Matching left right) :
    unifyOperands left op right = .error (.mixedArithmetic op left right) := by
  have hnone : unify left right = none := by
    rw [Option.eq_none_iff_forall_ne_some]
    exact fun t ht => h (exists_unify_iff.1 ⟨t, ht⟩)
  rw [unifyOperands, hnone]

/-! ### Operators on numbers -/

/-- What an operator gives for two numbers with the type `common` in common. -/
def outcome (op : BinaryOp) (common : Ty) : Ty :=
  if op.joins then common else bool

theorem isNumeric_of_isText (h : t.isText = true) : t.isNumeric = false := by
  cases t with
  | named name args =>
      obtain rfl : name = "Text" := by simpa [isText] using h
      rfl
  | _ => cases h

theorem binary_of_known (hleft : left.strip ≠ unknown) (hright : right.strip ≠ unknown) :
    binary left op right = binaryPlain left.strip op right.strip := by
  simp [binary, hleft, hright]

theorem binaryPlain_of_numeric (hop : op.family = .arithmetic ∨ op.family = .comparison)
    (hleft : left.isNumeric = true) (hright : right.isNumeric = true) :
    binaryPlain left op right = (unifyOperands left op right).map (outcome op) := by
  have htext : left.isText = false := by
    cases h : left.isText with
    | false => rfl
    | true => rw [isNumeric_of_isText h] at hleft; cases hleft
  rcases hop with hop | hop
  · have houtcome : outcome op = id := by
      funext common
      simp [outcome, BinaryOp.joins, hop]
    simp [binaryPlain, hop, htext, hleft, hright, houtcome]
  · have houtcome : outcome op = fun _ => bool := by
      funext common
      simp [outcome, BinaryOp.joins, hop]
    simp only [binaryPlain, hop, hleft, hright, houtcome]
    cases unifyOperands left op right <;> rfl

theorem binaryPlain_of_isInteger (hop : op.family = .bitwise) (hleft : left.isInteger = true)
    (hright : right.isInteger = true) :
    binaryPlain left op right = (unifyOperands left op right).map (outcome op) := by
  have houtcome : outcome op = id := by
    funext common
    simp [outcome, BinaryOp.joins, hop]
  simp [binaryPlain, hop, hleft, hright, houtcome]

/-- Where an operator asks for what two numbers have in common, the two match or are mixed. -/
theorem matching_or_mixed
    (h : binary left op right = (unifyOperands left.strip op right.strip).map (outcome op)) :
    ((∃ t, binary left op right = .ok t) ↔ Matching left.strip right.strip) ∧
    (¬ Matching left.strip right.strip →
      binary left op right = .error (.mixedArithmetic op left.strip right.strip)) := by
  rw [h]
  constructor
  · rw [← exists_unify_iff]
    constructor
    · rintro ⟨t, ht⟩
      cases hunify : unifyOperands left.strip op right.strip with
      | ok common => exact ⟨common, unifyOperands_eq_ok.1 hunify⟩
      | error fault =>
          rw [hunify] at ht
          cases ht
    · rintro ⟨common, hcommon⟩
      exact ⟨outcome op common, by rw [unifyOperands_eq_ok.2 hcommon]; rfl⟩
  · intro hmixed
    rw [unifyOperands_of_not_matching hmixed]
    rfl

theorem accepts_text (h : t.isText = true) : text.accepts t = true := by
  cases t with
  | named name args =>
      obtain rfl : name = "Text" := by simpa [isText] using h
      simp [text, plain, accepts, strip]
  | _ => cases h

/-- An operator that gives what its operands have in common gives the type of one of them, or a text
for two texts. -/
theorem accepts_of_binaryPlain (hop : op.family = .arithmetic ∨ op.family = .bitwise)
    (h : binaryPlain left op right = .ok t) :
    t.accepts left = true ∧ t.accepts right = true ∧ (t = left ∨ t = right ∨ t = text) := by
  have hnumbers : unifyOperands left op right = .ok t →
      t.accepts left = true ∧ t.accepts right = true ∧ (t = left ∨ t = right ∨ t = text) := by
    intro hunify
    rw [unifyOperands_eq_ok] at hunify
    obtain ⟨hleft, hright⟩ := accepts_of_unify hunify
    refine ⟨hleft, hright, ?_⟩
    rcases unify_eq_left_or_right hunify with heq | heq
    · exact .inl heq
    · exact .inr (.inl heq)
  rcases hop with hop | hop
  · simp only [binaryPlain, hop] at h
    split_ifs at h with htext
    · cases h
      rw [Bool.and_eq_true, Bool.and_eq_true] at htext
      exact ⟨accepts_text htext.1.2, accepts_text htext.2, .inr (.inr rfl)⟩
    · exact hnumbers h
  · simp only [binaryPlain, hop] at h
    split_ifs at h
    exact hnumbers h

/-- Distinct types of numbers never mix, whatever tokens they are under. An arithmetic operator or a
comparison of two numbers succeeds if and only if they match, and so does a bitwise operator on two
whole numbers; otherwise the fault names both types. What an arithmetic or bitwise operator gives
accepts both operands. -/
theorem numbers_never_mix (left right : Ty) (op : BinaryOp) :
    ((op.family = .arithmetic ∨ op.family = .comparison) ∧
          left.strip.IsNumber ∧ right.strip.IsNumber ∨
        op.family = .bitwise ∧ Number .whole left.strip ∧ Number .whole right.strip →
      ((∃ t, binary left op right = .ok t) ↔ Matching left.strip right.strip) ∧
      (¬ Matching left.strip right.strip →
        binary left op right = .error (.mixedArithmetic op left.strip right.strip))) ∧
    ((op.family = .arithmetic ∨ op.family = .bitwise) →
      left.strip ≠ unknown → right.strip ≠ unknown → ∀ t, binary left op right = .ok t →
        t.accepts left.strip = true ∧ t.accepts right.strip = true ∧
          (t = left.strip ∨ t = right.strip ∨ t = text)) := by
  constructor
  · rintro (⟨hop, hleft, hright⟩ | ⟨hop, hleft, hright⟩)
    · rw [isNumber_iff] at hleft hright
      apply matching_or_mixed
      rw [binary_of_known (ne_unknown_of_isNumeric hleft) (ne_unknown_of_isNumeric hright)]
      exact binaryPlain_of_numeric hop hleft hright
    · rw [number_iff, NumberFamily.holds] at hleft hright
      apply matching_or_mixed
      rw [binary_of_known (ne_unknown_of_isNumeric (isNumeric_of_isInteger hleft))
        (ne_unknown_of_isNumeric (isNumeric_of_isInteger hright))]
      exact binaryPlain_of_isInteger hop hleft hright
  · intro hop hleft hright t h
    rw [binary_of_known hleft hright] at h
    exact accepts_of_binaryPlain hop h

/-- In particular numbers of two sizes do not add up under a token, a fractional literal is compared
with a number without bounds, and a whole literal takes the type of the number beside it. -/
theorem numbers_never_mix_viewed :
    let viewed := token .viewing (num .s32)
    let decimal := plain "Decimal"
    (viewed.strip.IsNumber ∧ (num .s64).IsNumber ∧
      binary viewed .add (num .s64) = .error (.mixedArithmetic .add (num .s32) (num .s64))) ∧
    (decimal.IsNumber ∧ ∃ t, binary floatLiteral .lt decimal = .ok t) ∧
    binary viewed .bitOr intLiteral = .ok (num .s32) ∧ (num .s32).accepts intLiteral = true := by
  intro viewed decimal
  have hsized : ∀ n, (num n).IsNumber := fun n => ⟨_, .sized n⟩
  have hfloat : Number .fractional floatLiteral := .literal .fractional
  have hdecimal : Number .fractional decimal := .unbounded .fractional []
  have hmixed : ¬ Matching (num .s32) (num .s64) := by
    rw [matching_iff]
    decide
  have hor : binary viewed .bitOr intLiteral = .ok (num .s32) := rfl
  refine ⟨⟨hsized .s32, hsized .s64, ?_⟩, ⟨⟨_, hdecimal⟩, ?_⟩, hor, ?_⟩
  · exact ((numbers_never_mix viewed (num .s64) .add).1
      (.inl ⟨.inl rfl, hsized .s32, hsized .s64⟩)).2 hmixed
  · exact ((numbers_never_mix floatLiteral decimal .lt).1
      (.inl ⟨.inr rfl, ⟨_, hfloat⟩, ⟨_, hdecimal⟩⟩)).1.2 (.inr ⟨_, hfloat, hdecimal, .inl rfl⟩)
  · exact ((numbers_never_mix viewed intLiteral .bitOr).2 (.inr rfl) (by decide) (by decide) _
      hor).2.1

/-! ### The order of operands -/

theorem strip_strip : ∀ t : Ty, t.strip.strip = t.strip
  | token access inner => by
      rw [strip_token]
      exact strip_strip inner
  | prim _ | intLiteral | floatLiteral | blank | named _ _ | routine _ _ | param _ | unknown => rfl

section

variable (haccepts : t.accepts u = true) (hknown : u.strip ≠ unknown)
  (hparam : ∀ name, u.strip ≠ param name)

include haccepts hknown hparam

/-- A text accepts nothing but texts, unless nothing is known of the value. -/
theorem isText_of_accepts (h : t.isText = true) : u.strip.isText = true := by
  cases t with
  | named name args =>
      obtain rfl : name = "Text" := by simpa [isText] using h
      rw [accepts] at haccepts
      generalize u.strip = v at *
      cases v with
      | named other args' =>
          rw [Bool.and_eq_true, beq_iff_eq] at haccepts
          rw [← haccepts.1]
          rfl
      | unknown => exact absurd rfl hknown
      | param name => exact absurd rfl (hparam name)
      | _ => cases haccepts
  | _ => cases h

theorem isCode_of_accepts (h : t.isCode = true) : u.strip.isCode = true := by
  cases t with
  | prim p =>
      rw [accepts] at haccepts
      generalize u.strip = v at *
      cases v with
      | prim q =>
          rw [← eq_of_beq haccepts]
          exact h
      | intLiteral | floatLiteral =>
          cases p with
          | numeric | bool => cases h
          | letter | byte => cases haccepts
      | unknown => exact absurd rfl hknown
      | param name => exact absurd rfl (hparam name)
      | _ => cases haccepts
  | _ => cases h

/-- What a type with an order accepts has an order too. -/
theorem isOrderedFor_of_accepts (h : t.isOrderedFor op = true) :
    u.strip.isOrderedFor op = true := by
  simp only [isOrderedFor, Bool.or_eq_true] at h ⊢
  rcases h with (hequality | htext) | hcode
  · exact .inl (.inl hequality)
  · exact .inl (.inr (isText_of_accepts haccepts hknown hparam htext))
  · exact .inr (isCode_of_accepts haccepts hknown hparam hcode)

end

theorem unifyOperands_swap (h : unifyOperands left op right = .ok t) :
    unifyOperands right op left = .ok t := by
  rw [unifyOperands_eq_ok] at h ⊢
  rw [unify_comm]
  exact h

/-- Both operands of a comparison accept each other, so that one has an order if the other has. -/
theorem binaryPlain_swap (hstrip : right.strip = right) (hknown : right ≠ unknown)
    (hparam : ∀ name, right ≠ param name) (h : binaryPlain left op right = .ok t) :
    binaryPlain right op left = .ok t := by
  cases hop : op.family with
  | logical =>
      simp only [binaryPlain, hop] at h ⊢
      split_ifs at h with hleft hright
      rw [if_neg hright, if_neg hleft]
      exact h
  | comparison =>
      simp only [binaryPlain, hop] at h ⊢
      split_ifs at h with hnumbers hordered
      · obtain ⟨common, hunify, h⟩ := exists_of_bind_eq_ok h
        rw [Bool.and_comm, if_pos hnumbers, unifyOperands_swap hunify]
        exact h
      · rw [Bool.and_eq_true, Bool.and_eq_true] at hordered
        obtain ⟨⟨hleft, haccepts⟩, haccepted⟩ := hordered
        have hright : right.isOrderedFor op = true := by
          rw [← hstrip] at hknown hparam ⊢
          exact isOrderedFor_of_accepts (hstrip ▸ haccepts) hknown hparam hleft
        rw [Bool.and_comm, if_neg hnumbers, hright, haccepts, haccepted]
        exact h
  | bitwise =>
      simp only [binaryPlain, hop] at h ⊢
      split_ifs at h with hleft hright
      rw [if_neg hright, if_neg hleft]
      exact unifyOperands_swap h
  | arithmetic =>
      simp only [binaryPlain, hop] at h ⊢
      split_ifs at h with htexts hnumbers
      · rw [Bool.and_right_comm, if_pos htexts]
        exact h
      · rw [Bool.and_right_comm, if_neg htexts, Bool.and_comm, if_pos hnumbers]
        exact unifyOperands_swap h

/-- Which operand stands on the left does not matter: an operator accepts both orders or none, and
gives the same type in both, unless an operand is a type parameter. -/
theorem binary_symmetric {left right : Ty} {op : BinaryOp}
    (hleft : ∀ name, left.strip ≠ param name) (hright : ∀ name, right.strip ≠ param name) (t : Ty) :
    binary left op right = .ok t ↔ binary right op left = .ok t := by
  unfold binary
  by_cases hunknown : left.strip = unknown ∨ right.strip = unknown
  · rw [if_pos hunknown, if_pos hunknown.symm]
  · rw [if_neg hunknown, if_neg (mt Or.symm hunknown)]
    rw [not_or] at hunknown
    exact ⟨binaryPlain_swap (strip_strip right) hunknown.2 hright,
      binaryPlain_swap (strip_strip left) hunknown.1 hleft⟩

/-- In particular a literal takes the type of the number that it stands beside on either side, also
under tokens. A type parameter accepts a text and is accepted by it, but has no order of its own. -/
theorem binary_symmetric_literal :
    let viewed := token .viewing (token .observing (num .u8))
    binary intLiteral .add viewed = .ok (num .u8) ∧ binary viewed .add intLiteral = .ok (num .u8) ∧
      binary text .lt (param "T") = .ok bool ∧
      binary (param "T") .lt text = .error (.misuse (.operands .lt (param "T") text)) := by
  intro viewed
  have hsum : binary intLiteral .add viewed = .ok (num .u8) := rfl
  refine ⟨hsum, ?_, rfl, rfl⟩
  exact (binary_symmetric (by simp [strip]) (by simp [viewed, num, strip]) _).1 hsum

end Ty

end Custody
