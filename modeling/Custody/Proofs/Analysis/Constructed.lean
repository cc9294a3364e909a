import Custody.Proofs.Check.Complete
import Custody.Proofs.Check.Passes
import Custody.Proofs.Check.Visit

/-! Constructions. The values for the fields of a new value are checked in the order in which they are
written, and a value that cannot be used does not keep the others from being checked. A construction
passes if and only if every field of the type is named once and no other name is there, and the values
can be given away and have the types of their fields. Whatever is wrong with the values, a name that is
missing, repeated or unknown is reported. -/

namespace Custody

namespace FieldInit

/-- The names of the fields that are given a value, in the order of the values. -/
def names (inits : List (FieldInit Expr)) : List String :=
  inits.map (·.name.name)

@[simp] theorem names_nil : names [] = [] := rfl

@[simp] theorem names_cons (init : FieldInit Expr) (inits : List (FieldInit Expr)) :
    names (init :: inits) = init.name.name :: names inits :=
  rfl

@[simp] theorem names_append (front back : List (FieldInit Expr)) :
    names (front ++ back) = names front ++ names back :=
  List.map_append

theorem mem_names {inits : List (FieldInit Expr)} {name : String} :
    name ∈ names inits ↔ ∃ init ∈ inits, init.name.name = name :=
  List.mem_map

/-- Of the values for a name that is repeated, one comes after another. -/
theorem exists_split_of_count {inits : List (FieldInit Expr)} {name : String}
    (h : 1 < (names inits).count name) :
    ∃ front init back, inits = front ++ init :: back ∧ init.name.name = name ∧
      name ∈ names front := by
  obtain ⟨init, hinit, hname⟩ := mem_names.1 (List.count_pos_iff.1 (Nat.zero_lt_of_lt h))
  obtain ⟨front, back, rfl⟩ := List.append_of_mem hinit
  by_cases hfront : name ∈ names front
  · exact ⟨front, init, back, rfl, hname, hfront⟩
  · have hback : 0 < (names back).count name := by
      rw [names_append, names_cons, hname, List.count_append, List.count_cons_self,
        List.count_eq_zero.2 hfront] at h
      omega
    obtain ⟨other, hother, hagain⟩ := mem_names.1 (List.count_pos_iff.1 hback)
    obtain ⟨between, rest, rfl⟩ := List.append_of_mem hother
    exact ⟨front ++ init :: between, other, rest, by simp, hagain, by simp [hname]⟩

end FieldInit

/-- The diagnostic has been added on the way from one state to the other. -/
def State.Adds (s t : State) (diagnostic : Diagnostic) : Prop :=
  ∃ new, t.diagnostics = s.diagnostics ++ new ∧ diagnostic ∈ new

namespace State.Adds

variable {s t u : State} {diagnostic : Diagnostic}

theorem before (hst : s.diagnostics <+: t.diagnostics) (h : t.Adds u diagnostic) :
    s.Adds u diagnostic := by
  obtain ⟨old, hold⟩ := hst
  obtain ⟨new, hnew, hmem⟩ := h
  refine ⟨old ++ new, ?_, List.mem_append_right _ hmem⟩
  rw [hnew, ← hold, List.append_assoc]

theorem after (h : s.Adds t diagnostic) (htu : t.diagnostics <+: u.diagnostics) :
    s.Adds u diagnostic := by
  obtain ⟨new, hnew, hmem⟩ := h
  obtain ⟨later, hlater⟩ := htu
  refine ⟨new ++ later, ?_, List.mem_append_left _ hmem⟩
  rw [← hlater, hnew, List.append_assoc]

theorem report (s : State) (diagnostic : Diagnostic) : s.Adds (s.report diagnostic) diagnostic :=
  ⟨[diagnostic], rfl, List.mem_singleton_self _⟩

end State.Adds

/-- A name has an entry in a list of fields if and only if one of the fields has it. -/
theorem exists_lookup_iff {fields : List (String × Ty)} {name : String} :
    (∃ field, fields.lookup name = some field) ↔ name ∈ fields.map (·.1) := by
  rw [← Option.isSome_iff_exists, ← not_iff_not, Option.not_isSome_iff_eq_none,
    List.lookup_eq_none_iff]
  simp only [bne_iff_ne, ne_eq, List.mem_map, not_exists, not_and]
  exact forall₂_congr fun field _ => not_congr eq_comm

namespace Check

variable {env : Env} {owner : Ty} {fields : List (String × Ty)} {inits : List (FieldInit Expr)}
  {seen : List String} {s t : State}

/-- The values of a construction that are accepted. Each is checked in the state that the ones before
it have left, as an argument that its field will own; the field accepts its type and takes it over. -/
inductive Filled (env : Env) (fields : List (String × Ty)) :
    State → List (FieldInit Expr) → State → Prop
  | nil (s : State) : Filled env fields s [] s
  | cons {s t u v : State} {init : FieldInit Expr} {inits : List (FieldInit Expr)} {field found : Ty}
      (hfield : fields.lookup init.name.name = some field)
      (hvalue : Passes env (checkExpr init.value (.argument false)) s found t)
      (haccepts : field.accepts found = true) (htaken : Passes env (takeOver init.value) t () u)
      (hrest : Filled env fields u inits v) : Filled env fields s (init :: inits) v

/-- Only fields are given values. -/
theorem Filled.mem_fields (h : Filled env fields s inits t) :
    ∀ name ∈ FieldInit.names inits, name ∈ fields.map (·.1) := by
  induction h with
  | nil s => simp
  | cons hfield _ _ _ _ ih =>
      simp only [FieldInit.names_cons, List.forall_mem_cons]
      exact ⟨exists_lookup_iff.1 ⟨_, hfield⟩, ih⟩

/-! ### One value -/

theorem Completes.initField (owner : Ty) (fields : List (String × Ty)) (name : Ident) (value : Expr)
    (found : Option Ty) : Completes (Check.initField owner fields name value found) := by
  unfold Check.initField
  split
  · exact fun _ _ => ⟨(), rfl⟩
  · split
    · exact pure ()
    · split
      · exact fun _ _ => ⟨(), rfl⟩
      · exact takeOver value

theorem passes_initField {name : Ident} {value : Expr} {found : Ty} :
    Passes env (initField owner fields name value (some found)) s () t ↔
      ∃ field, fields.lookup name.name = some field ∧ field.accepts found = true ∧
        Passes env (takeOver value) s () t := by
  unfold initField
  cases hfield : fields.lookup name.name with
  | none => simp [not_passes_report]
  | some field =>
      cases haccepts : field.accepts found with
      | false => simp [haccepts, not_passes_report]
      | true => simp [haccepts]

/-- Checks one value of a construction. -/
def checkInit (owner : Ty) (fields : List (String × Ty)) (init : FieldInit Expr)
    (seen : List String) : Check (List String) := do
  let found ← attempt (checkExpr init.value (.argument false))
  if init.name.name ∈ seen then do
    report (.duplicateDeclaration init.name.name) init.name.span
    return seen
  else do
    initField owner fields init.name init.value found
    return seen ++ [init.name.name]

theorem checkInits_cons (owner : Ty) (fields : List (String × Ty)) (init : FieldInit Expr)
    (inits : List (FieldInit Expr)) (seen : List String) :
    checkInits owner fields (init :: inits) seen =
      checkInit owner fields init seen >>= checkInits owner fields inits := by
  rw [checkInits, checkInit, bind_assoc]
  congr 1
  funext found
  split <;> simp only [bind_assoc, pure_bind]

theorem checkInit_keeps {R : Nat → State → State → Prop} (frame : ExprFrame env R) (owner : Ty)
    (fields : List (String × Ty)) (init : FieldInit Expr) (seen : List String) :
    Keeps env (R 0) (checkInit owner fields init seen) s := by
  refine .seq frame.toFrame (.attempt frame.toFrame (checkExpr_keeps frame _ _ s)) fun _ t hrun => ?_
  split
  · refine .seq frame.toFrame (.report frame.toFrame rfl) fun _ _ _ => .pure frame.toFrame _
  · refine .seq frame.toFrame (initField_keeps frame (usable_of_attempt hrun)) fun _ _ _ => ?_
    exact .pure frame.toFrame _

theorem passes_checkInit {init : FieldInit Expr} {after : List String} :
    Passes env (checkInit owner fields init seen) s after t ↔
      init.name.name ∉ seen ∧ after = seen ++ [init.name.name] ∧ ∃ field found u,
        fields.lookup init.name.name = some field ∧
        Passes env (checkExpr init.value (.argument false)) s found u ∧
        field.accepts found = true ∧ Passes env (takeOver init.value) u () t := by
  have hvalue : Keeps env (Growing 0) (checkExpr init.value (.argument false)) s :=
    checkExpr_keeps exprFrame_growing _ _ s
  unfold checkInit
  by_cases hseen : init.name.name ∈ seen
  · simp only [if_pos hseen]
    rw [passes_bind (n := 0) (.attempt frame_growing hvalue) fun _ _ _ =>
      .seq frame_growing (.report frame_growing ?_) fun _ _ _ => .pure frame_growing _]
    · constructor
      · rintro ⟨_, _, -, hrest⟩
        exact absurd hrest (not_passes_report_bind (n := 0) rfl fun _ => .pure frame_growing _)
      · rintro ⟨hnew, -⟩
        exact absurd hseen hnew
    · rfl
  · simp only [if_neg hseen]
    rw [passes_bind (n := 0) (.attempt frame_growing hvalue) fun _ _ hrun =>
      .seq frame_growing (initField_keeps exprFrame_growing (usable_of_attempt hrun)) fun _ _ _ =>
        .pure frame_growing _]
    simp only [passes_attempt hvalue]
    constructor
    · rintro ⟨_, u, ⟨found, rfl, hfound⟩, hrest⟩
      rw [passes_bind (m := 0) (n := 0) (initField_keeps exprFrame_growing fun _ =>
        usable_of_checkExpr hfound.1) fun _ _ _ => .pure frame_growing _] at hrest
      obtain ⟨_, v, hinit, hpure⟩ := hrest
      obtain ⟨rfl, rfl⟩ := passes_pure.1 hpure
      obtain ⟨field, hfield, haccepts, htaken⟩ := passes_initField.1 hinit
      exact ⟨hseen, rfl, field, found, u, hfield, hfound, haccepts, htaken⟩
    · rintro ⟨-, rfl, field, found, u, hfield, hfound, haccepts, htaken⟩
      refine ⟨some found, u, ⟨found, rfl, hfound⟩, ?_⟩
      exact (passes_initField.2 ⟨field, hfield, haccepts, htaken⟩).bind (passes_pure.2 ⟨rfl, rfl⟩)

/-- The values pass if and only if they are accepted and no name comes twice. -/
theorem passes_checkInits {after : List String} :
    Passes env (checkInits owner fields inits seen) s after t ↔
      after = seen ++ FieldInit.names inits ∧ (FieldInit.names inits).Nodup ∧
        (∀ name ∈ FieldInit.names inits, name ∉ seen) ∧ Filled env fields s inits t := by
  induction inits generalizing seen s with
  | nil =>
      rw [checkInits, passes_pure]
      constructor
      · rintro ⟨rfl, rfl⟩
        exact ⟨(List.append_nil _).symm, List.nodup_nil, by simp, .nil _⟩
      · rintro ⟨rfl, -, -, hfilled⟩
        cases hfilled
        exact ⟨(List.append_nil _).symm, rfl⟩
  | cons init inits ih =>
      rw [checkInits_cons, passes_bind (checkInit_keeps exprFrame_growing owner fields init seen)
        fun next u _ => checkInits_keeps exprFrame_growing owner fields inits next u]
      simp only [passes_checkInit, ih, FieldInit.names_cons, List.nodup_cons, List.forall_mem_cons]
      constructor
      · rintro ⟨_, u, ⟨hseen, rfl, field, found, v, hfield, hvalue, haccepts, htaken⟩, rfl,
          hnodup, hnew, hrest⟩
        refine ⟨List.append_assoc .., ⟨?_, hnodup⟩, ⟨hseen, ?_⟩,
          .cons hfield hvalue haccepts htaken hrest⟩
        · exact fun hmem => hnew _ hmem (List.mem_append_right _ (List.mem_singleton_self _))
        · exact fun name hmem hold => hnew name hmem (List.mem_append_left _ hold)
      · rintro ⟨rfl, ⟨hfirst, hnodup⟩, ⟨hseen, hnew⟩, hfilled⟩
        cases hfilled with
        | cons hfield hvalue haccepts htaken hrest =>
            refine ⟨_, _, ⟨hseen, rfl, _, _, _, hfield, hvalue, haccepts, htaken⟩,
              List.append_cons .., hnodup, fun name hmem hold => ?_, hrest⟩
            rcases List.mem_append.1 hold with hold | hold
            · exact hnew name hmem hold
            · exact hfirst (List.mem_singleton.1 hold ▸ hmem)

theorem passes_reportMissing {type : String} {span : Span} :
    Passes env (reportMissing type seen span fields) s () t ↔
      (∀ name ∈ fields.map (·.1), name ∈ seen) ∧ t = s := by
  induction fields generalizing s with
  | nil => simp [reportMissing, passes_pure]
  | cons field fields ih =>
      rw [reportMissing, passes_bind (n := 0) (.require frame_growing ?_) fun _ t _ =>
        reportMissing_keeps frame_growing type seen span fields]
      · simp only [passes_require, ih, List.map_cons, List.forall_mem_cons, decide_eq_true_eq]
        constructor
        · rintro ⟨_, u, ⟨hseen, rfl⟩, hrest, rfl⟩
          exact ⟨⟨hseen, hrest⟩, rfl⟩
        · rintro ⟨⟨hseen, hrest⟩, rfl⟩
          exact ⟨(), _, ⟨hseen, rfl⟩, hrest, rfl⟩
      · rfl

/-! ### Constructions -/

/-- The values of a construction and then the fields that are left. -/
def construct (symbol : Symbol) (fields : List (String × Ty)) (span : Span) (type : String)
    (inits : List (FieldInit Expr)) : Check Ty := do
  let seen ← checkInits symbol.ty fields inits []
  reportMissing type seen span fields
  return symbol.ty

variable {symbol : Symbol} {span : Span} {type : Ident} {use : Use} {ty : Ty}

theorem checkExpr_construct (use : Use) (hfind : s.table.find? type.name = some symbol)
    (hfields : symbol.fields? = some fields) :
    checkExpr (.construct span type inits) use env s =
      construct symbol fields span type.name inits env s := by
  have hlookup : lookup type.name type.span env s = (.ok symbol, s) := by
    simp [lookup, rule, hfind]
  rw [checkExpr, bind_apply, hlookup]
  simp only [hfields]
  rfl

/-- Only what has fields can be constructed. -/
theorem exists_fields_of_construct
    (h : checkExpr (.construct span type inits) use env s = (.ok ty, t)) :
    ∃ symbol fields, s.table.find? type.name = some symbol ∧ symbol.fields? = some fields := by
  rw [checkExpr] at h
  obtain ⟨symbol, u, hlookup, hrest⟩ := bind_eq_ok h
  obtain ⟨hfind, rfl⟩ := lookup_eq_ok hlookup
  cases hfields : symbol.fields? with
  | none =>
      simp only [hfields] at hrest
      cases hrest
  | some fields => exact ⟨symbol, fields, hfind, hfields⟩

theorem passes_construct : Passes env (construct symbol fields span type.name inits) s ty t ↔
    ty = symbol.ty ∧ (FieldInit.names inits).Nodup ∧
      (∀ name, name ∈ FieldInit.names inits ↔ name ∈ fields.map (·.1)) ∧
      Filled env fields s inits t := by
  unfold construct
  rw [passes_bind (checkInits_keeps exprFrame_growing symbol.ty fields inits [] s) fun _ _ _ =>
    .seq frame_growing (reportMissing_keeps frame_growing _ _ _ _) fun _ _ _ =>
      .pure frame_growing _]
  constructor
  · rintro ⟨seen, u, hinits, hrest⟩
    rw [passes_bind (reportMissing_keeps frame_growing _ _ _ _) fun _ _ _ =>
      .pure frame_growing _] at hrest
    obtain ⟨_, _, hmissing, hpure⟩ := hrest
    obtain ⟨rfl, hnodup, -, hfilled⟩ := passes_checkInits.1 hinits
    obtain ⟨hall, rfl⟩ := passes_reportMissing.1 hmissing
    obtain ⟨rfl, rfl⟩ := passes_pure.1 hpure
    exact ⟨rfl, hnodup, fun name => ⟨hfilled.mem_fields name, hall name⟩, hfilled⟩
  · rintro ⟨rfl, hnodup, hnames, hfilled⟩
    refine ⟨FieldInit.names inits, t, passes_checkInits.2 ⟨rfl, hnodup, ?_, hfilled⟩, ?_⟩
    · exact fun _ _ => List.not_mem_nil
    · exact (passes_reportMissing.2 ⟨fun name => (hnames name).2, rfl⟩).bind
        (passes_pure.2 ⟨rfl, rfl⟩)

/-! ### Reports -/

/-- Whatever is wrong with a value, the check goes on, and its name has been seen. A name that has been
given a value already is reported, and so is a new name that no field has. -/
theorem checkInit_run (owner : Ty) (fields : List (String × Ty)) (init : FieldInit Expr)
    (seen : List String) (env : Env) (s : State) :
    ∃ after u, checkInit owner fields init seen env s = (.ok after, u) ∧
      (∀ name, name ∈ after ↔ name ∈ seen ∨ name = init.name.name) ∧
      (init.name.name ∈ seen → s.Adds u ⟨.duplicateDeclaration init.name.name, init.name.span⟩) ∧
      (init.name.name ∉ seen → init.name.name ∉ fields.map (·.1) →
        s.Adds u ⟨.unknownMember owner init.name.name, init.name.span⟩) := by
  have hvalue : Keeps env (Growing 0) (attempt (checkExpr init.value (.argument false))) s :=
    .attempt frame_growing (checkExpr_keeps exprFrame_growing _ _ s)
  obtain ⟨found, hfound⟩ := Completes.attempt (checkExpr init.value (.argument false)) env s
  have hgrown := hvalue.left
  rw [checkInit, bind_of_ok hfound]
  generalize (attempt (checkExpr init.value (.argument false)) env s).2 = v at hgrown ⊢
  by_cases hseen : init.name.name ∈ seen
  · rw [if_pos hseen]
    refine ⟨seen, _, rfl, fun name => ⟨.inl, fun h => h.elim id (· ▸ hseen)⟩, fun _ => ?_, ?_⟩
    · exact (State.Adds.report v _).before hgrown
    · exact fun hnew => absurd hseen hnew
  · rw [if_neg hseen]
    obtain ⟨_, hinit⟩ := Completes.initField owner fields init.name init.value found env v
    rw [bind_of_ok hinit]
    refine ⟨_, _, rfl, fun name => ?_, fun hold => absurd hold hseen, fun _ hunknown => ?_⟩
    · rw [List.mem_append, List.mem_singleton]
    · have hnone : fields.lookup init.name.name = none := by
        rw [← Option.not_isSome_iff_eq_none, Option.isSome_iff_exists, exists_lookup_iff]
        exact hunknown
      rw [initField, hnone]
      exact (State.Adds.report v _).before hgrown

/-- The check of the values goes on with the next one in the state and with the names that the first
one leaves. -/
theorem checkInits_of_run {init : FieldInit Expr} {after : List String}
    (h : checkInit owner fields init seen env s = (.ok after, t)) :
    checkInits owner fields (init :: inits) seen env s = checkInits owner fields inits after env t := by
  rw [checkInits_cons, bind_apply, h]

/-- All the values are checked, and the names of all have been seen then. -/
theorem exists_mem_of_checkInits (owner : Ty) (fields : List (String × Ty))
    (inits : List (FieldInit Expr)) (seen : List String) (env : Env) (s : State) :
    ∃ after, (checkInits owner fields inits seen env s).1 = .ok after ∧
      ∀ name, name ∈ after ↔ name ∈ seen ∨ name ∈ FieldInit.names inits := by
  induction inits generalizing seen s with
  | nil => exact ⟨seen, by rw [checkInits]; rfl, by simp⟩
  | cons init inits ih =>
      obtain ⟨next, u, hrun, hnext, -⟩ := checkInit_run owner fields init seen env s
      obtain ⟨after, hafter, hmem⟩ := ih next u
      rw [checkInits_of_run hrun]
      refine ⟨after, hafter, fun name => ?_⟩
      rw [hmem, hnext, FieldInit.names_cons, List.mem_cons, or_assoc]

/-- Each value is checked after the ones before it, and the names of these have been seen then. -/
theorem exists_checkInit_run (seen : List String) {front back : List (FieldInit Expr)}
    {init : FieldInit Expr} (hinits : inits = front ++ init :: back) :
    ∃ before after u v, (∀ name, name ∈ before ↔ name ∈ seen ∨ name ∈ FieldInit.names front) ∧
      checkInit owner fields init before env u = (.ok after, v) ∧
      s.diagnostics <+: u.diagnostics ∧
      v.diagnostics <+: (checkInits owner fields inits seen env s).2.diagnostics := by
  subst hinits
  induction front generalizing seen s with
  | nil =>
      obtain ⟨after, v, hrun, -⟩ := checkInit_run owner fields init seen env s
      refine ⟨seen, after, s, v, by simp, hrun, List.prefix_rfl, ?_⟩
      rw [List.nil_append, checkInits_of_run hrun]
      exact (checkInits_keeps exprFrame_growing owner fields back after v).left
  | cons first front ih =>
      obtain ⟨next, w, hfirst, hnext, -⟩ := checkInit_run owner fields first seen env s
      have hgrown := (checkInit_keeps exprFrame_growing owner fields first seen).related hfirst
      obtain ⟨before, after, u, v, hbefore, hrun, hsu, hvt⟩ := ih (s := w) next
      refine ⟨before, after, u, v, fun name => ?_, hrun, List.IsPrefix.trans hgrown hsu, ?_⟩
      · rw [hbefore, hnext, FieldInit.names_cons, List.mem_cons, or_assoc]
      · rw [List.cons_append, checkInits_of_run hfirst]
        exact hvt

/-- A name that is given a value again is reported. -/
theorem checkInits_adds_repeated {name : String} (hrepeated : 1 < (FieldInit.names inits).count name) :
    ∃ init ∈ inits, init.name.name = name ∧
      s.Adds (checkInits owner fields inits [] env s).2 ⟨.duplicateDeclaration name, init.name.span⟩ := by
  obtain ⟨front, init, back, hinits, rfl, hfront⟩ := FieldInit.exists_split_of_count hrepeated
  obtain ⟨before, after, u, v, hbefore, hrun, hsu, hvt⟩ := exists_checkInit_run [] hinits
  obtain ⟨_, _, hrun', -, hadds, -⟩ := checkInit_run owner fields init before env u
  cases hrun.symm.trans hrun'
  have hagain := hadds ((hbefore _).2 (.inr hfront))
  exact ⟨init, by simp [hinits], rfl, (hagain.before hsu).after hvt⟩

/-- A name that no field has is reported where it is first given a value. -/
theorem checkInits_adds_unknown {name : String} (hname : name ∈ FieldInit.names inits)
    (hunknown : name ∉ fields.map (·.1)) :
    ∃ init ∈ inits, init.name.name = name ∧
      s.Adds (checkInits owner fields inits [] env s).2 ⟨.unknownMember owner name, init.name.span⟩ := by
  obtain ⟨init, hfind⟩ : ∃ init, inits.find? (·.name.name = name) = some init := by
    rw [← Option.isSome_iff_exists, List.find?_isSome]
    simpa [FieldInit.mem_names] using hname
  obtain ⟨hinit, front, back, hinits, hfront⟩ := List.find?_eq_some_iff_append.1 hfind
  obtain rfl : init.name.name = name := by simpa using hinit
  obtain ⟨before, after, u, v, hbefore, hrun, hsu, hvt⟩ := exists_checkInit_run [] hinits
  have hnew : init.name.name ∉ before := by
    rw [hbefore]
    simpa [FieldInit.mem_names] using hfront
  obtain ⟨_, _, hrun', -, -, hadds⟩ := checkInit_run owner fields init before env u
  cases hrun.symm.trans hrun'
  exact ⟨init, by simp [hinits], rfl, ((hadds hnew hunknown).before hsu).after hvt⟩

theorem Completes.reportMissing (type : String) (seen : List String) (span : Span)
    (fields : List (String × Ty)) : Completes (Check.reportMissing type seen span fields) := by
  induction fields with
  | nil => exact pure ()
  | cons field fields ih => exact (require _ _ _).bind fun _ => ih

/-- A field that has been given no value is reported. -/
theorem reportMissing_adds {type name : String} (hname : name ∈ fields.map (·.1))
    (hmissing : name ∉ seen) :
    s.Adds (reportMissing type seen span fields env s).2
      ⟨.misuse (.missingField name type), span⟩ := by
  induction fields generalizing s with
  | nil => cases hname
  | cons field fields ih =>
      rw [reportMissing, bind_of_ok (require_ok _ _ _ env s)]
      rcases List.mem_cons.1 hname with rfl | hname
      · refine State.Adds.after ?_ (reportMissing_keeps frame_growing type seen span fields).left
        simp only [require, hmissing, decide_false]
        exact .report s _
      · have hrequire : Keeps env (Growing 0)
            (require (field.1 ∈ seen) (.misuse (.missingField field.1 type)) span) s :=
          .require frame_growing rfl
        exact (ih hname).before hrequire.left

/-- A construction of a type that has fields goes through to the end. -/
theorem exists_construct_run (env : Env) (s : State) (symbol : Symbol) (fields : List (String × Ty))
    (span : Span) (type : String) (inits : List (FieldInit Expr)) :
    ∃ seen, (∀ name, name ∈ seen ↔ name ∈ FieldInit.names inits) ∧
      construct symbol fields span type inits env s = (.ok symbol.ty,
        (reportMissing type seen span fields env (checkInits symbol.ty fields inits [] env s).2).2) := by
  obtain ⟨seen, hseen, hmem⟩ := exists_mem_of_checkInits symbol.ty fields inits [] env s
  refine ⟨seen, by simpa using hmem, ?_⟩
  obtain ⟨_, hmissing⟩ := Completes.reportMissing type seen span fields env
    (checkInits symbol.ty fields inits [] env s).2
  rw [construct, bind_of_ok hseen, bind_of_ok hmissing]
  rfl

/-- A construction passes if and only if its type has fields, each field is named exactly once and no
other name is there, and the values are accepted one after the other. If the type has fields, the check
goes through to the end, and every field that is not named, every name that is repeated and every name
that no field has is reported. -/
theorem construction_names_each_field_once (env : Env) (s : State) (span : Span) (type : Ident)
    (inits : List (FieldInit Expr)) (use : Use) :
    (∀ ty t, Passes env (checkExpr (.construct span type inits) use) s ty t ↔
      ∃ symbol fields, s.table.find? type.name = some symbol ∧ symbol.fields? = some fields ∧
        ty = symbol.ty ∧ (FieldInit.names inits).Nodup ∧
        (∀ name, name ∈ FieldInit.names inits ↔ name ∈ fields.map (·.1)) ∧
        Filled env fields s inits t) ∧
    ∀ symbol fields, s.table.find? type.name = some symbol → symbol.fields? = some fields →
      ∃ t, checkExpr (.construct span type inits) use env s = (.ok symbol.ty, t) ∧
        (∀ name ∈ fields.map (·.1), name ∉ FieldInit.names inits →
          s.Adds t ⟨.misuse (.missingField name type.name), span⟩) ∧
        (∀ name, 1 < (FieldInit.names inits).count name → ∃ init ∈ inits, init.name.name = name ∧
          s.Adds t ⟨.duplicateDeclaration name, init.name.span⟩) ∧
        (∀ name ∈ FieldInit.names inits, name ∉ fields.map (·.1) → ∃ init ∈ inits,
          init.name.name = name ∧ s.Adds t ⟨.unknownMember symbol.ty name, init.name.span⟩) := by
  refine ⟨fun ty t => ⟨fun h => ?_, ?_⟩, fun symbol fields hfind hfields => ?_⟩
  · obtain ⟨symbol, fields, hfind, hfields⟩ := exists_fields_of_construct h.1
    rw [Passes, checkExpr_construct use hfind hfields] at h
    exact ⟨symbol, fields, hfind, hfields, passes_construct.1 h⟩
  · rintro ⟨symbol, fields, hfind, hfields, hpasses⟩
    rw [Passes, checkExpr_construct use hfind hfields]
    exact passes_construct.2 hpasses
  · obtain ⟨seen, hseen, hrun⟩ := exists_construct_run env s symbol fields span type.name inits
    rw [checkExpr_construct use hfind hfields, hrun]
    have hinits : s.diagnostics <+: (checkInits symbol.ty fields inits [] env s).2.diagnostics :=
      (checkInits_keeps exprFrame_growing symbol.ty fields inits [] s).left
    have hmissing (u : State) :
        u.diagnostics <+: (reportMissing type.name seen span fields env u).2.diagnostics :=
      (reportMissing_keeps frame_growing type.name seen span fields).left
    refine ⟨_, rfl, fun name hname hnot => ?_, fun name hrepeated => ?_, fun name hname hunknown => ?_⟩
    · exact (reportMissing_adds hname fun hmem => hnot ((hseen name).1 hmem)).before hinits
    · obtain ⟨init, hmem, hinit, hadds⟩ := checkInits_adds_repeated hrepeated
      exact ⟨init, hmem, hinit, hadds.after (hmissing _)⟩
    · obtain ⟨init, hmem, hinit, hadds⟩ := checkInits_adds_unknown hname hunknown
      exact ⟨init, hmem, hinit, hadds.after (hmissing _)⟩

end Check

namespace Linked

open Check

/-- A program with a type of two fields. -/
def planar : Linked where
  prelude := []
  items :=
    [.decl (.type {
      semantics := .value
      name := ⟨"Point", {}⟩
      params := []
      fields :=
        [{ name := ⟨"x", {}⟩, type := .named {} ⟨"s32", {}⟩ [] },
          { name := ⟨"y", {}⟩, type := .named {} ⟨"s32", {}⟩ [] }] })]

/-- The state after the type. -/
def inPlane : State :=
  let fields := [("x", Ty.num .s32), ("y", .num .s32)]
  let point : Symbol := { Symbol.composite .value "Point" fields [] {} with depth := 1 }
  { table := { root := Table.builtins, inner := [[point]] } }

/-- Both fields in the other order pass. If one is repeated and another name is there, so that the
second field is missing, all three are reported. -/
theorem construction_names_each_field_once_point :
    let env := planar.env {}
    let one : Expr := .literal {} (.int 1 none)
    let point (names : List String) : Expr :=
      .construct {} ⟨"Point", {}⟩ (names.map fun name => ⟨⟨name, {}⟩, one⟩)
    Reachable {} planar inPlane ∧
      (∃ t, Passes env (checkExpr (point ["y", "x"]) .read) inPlane (.plain "Point") t) ∧
      ∃ t, checkExpr (point ["x", "x", "z"]) .read env inPlane = (.ok (.plain "Point"), t) ∧
        inPlane.Adds t ⟨.misuse (.missingField "y" "Point"), {}⟩ ∧
        inPlane.Adds t ⟨.duplicateDeclaration "x", {}⟩ ∧
        inPlane.Adds t ⟨.unknownMember (.plain "Point") "z", {}⟩ := by
  intro env one point
  have hreachable : Reachable {} planar inPlane := ⟨_, .visit .start (.otherItems rfl)⟩
  have hvalue : Passes env (checkExpr one (.argument false)) inPlane .intLiteral inPlane := ⟨rfl, rfl⟩
  have htaken : Passes env (takeOver one) inPlane () inPlane := ⟨rfl, rfl⟩
  refine ⟨hreachable, ⟨inPlane, ?_⟩, ?_⟩
  · refine ((construction_names_each_field_once env inPlane {} ⟨"Point", {}⟩ _ .read).1 _ _).2
      ⟨_, _, rfl, rfl, rfl, by decide, fun name => ?_,
        .cons rfl hvalue rfl htaken (.cons rfl hvalue rfl htaken (.nil _))⟩
    simp [or_comm]
  · let inits : List (FieldInit Expr) := ["x", "x", "z"].map fun name => ⟨⟨name, {}⟩, one⟩
    have hspan : ∀ init ∈ inits, init.name.span = {} := by simp [inits]
    obtain ⟨t, hrun, hmissing, hrepeated, hunknown⟩ :=
      (construction_names_each_field_once env inPlane {} ⟨"Point", {}⟩ inits .read).2 _ _ rfl rfl
    obtain ⟨x, hx, -, hrepeated⟩ := hrepeated "x" (by decide)
    obtain ⟨z, hz, -, hunknown⟩ := hunknown "z" (by decide) (by decide)
    rw [hspan x hx] at hrepeated
    rw [hspan z hz] at hunknown
    exact ⟨t, hrun, hmissing "y" (by decide) (by decide), hrepeated, hunknown⟩

end Linked

end Custody
