import Custody.Proofs.Check.Lasting
import Custody.Proofs.Check.ProperProgram

/-! Types that mean what is written. An importer reads a type off its names alone; in an analysis a
name means what the scopes say. The two agree wherever the names of the built-in types have not been
declared anew, because any other name of a type stands for the type of that name or for the type
parameter of that name. This is true of everything that gets into the table: the body of a routine
declares variables only, and a declared or imported type stands for itself. -/

namespace Custody

/-- The built-in type that an importer reads off a name wherever it stands. -/
def Ty.builtin? (name : String) : Option Ty :=
  ((Primitive.ofName? name).map .prim).or (if name = "Blank" then some .blank else none)

namespace Symbol

variable {symbol : Symbol}

/-- The symbol is a type parameter. -/
structure IsTypeParam (symbol : Symbol) : Prop where
  kind : symbol.kind = .basic
  ty : symbol.ty = .param symbol.name

/-- If the symbol is a type, and not under the name of a built-in one, then it stands for the type or
for the type parameter of its name. -/
def Faithful (symbol : Symbol) : Prop :=
  symbol.isType = true → Ty.builtin? symbol.name = none →
    symbol.ty = .plain symbol.name ∨ symbol.IsTypeParam

theorem faithful_of_isType (h : symbol.isType = false) : symbol.Faithful := by
  intro htype
  rw [h] at htype
  cases htype

theorem Faithful.atDepth (h : symbol.Faithful) (depth : Nat) :
    ({ symbol with depth } : Symbol).Faithful := by
  intro htype hname
  exact (h htype hname).imp_right fun hparam => ⟨hparam.kind, hparam.ty⟩

theorem Faithful.setFields (h : symbol.Faithful) (fields : List (String × Ty)) :
    (symbol.setFields fields).Faithful := by
  rcases symbol with ⟨name, kind, ty, visibility, depth, span⟩
  cases kind with
  | composite semantics old params =>
      intro _ hname
      refine .inl ((h rfl hname).resolve_right fun hparam => ?_)
      cases hparam.kind
  | _ => exact h

theorem Faithful.similar {a b : Symbol} (h : Similar a b) (ha : a.Faithful) : b.Faithful := by
  obtain ⟨state, rfl⟩ := h
  rcases a with ⟨name, kind, ty, visibility, depth, span⟩
  cases kind with
  | var mutable old => exact faithful_of_isType rfl
  | _ => exact ha

/-- What importers see of a type stands for itself. -/
theorem faithful_symbol (language : Language) (decl : Decl) : (decl.symbol language).Faithful := by
  cases decl with
  | routine routine => exact faithful_of_isType rfl
  | type decl => exact fun _ _ => .inl rfl
  | var decl => exact faithful_of_isType rfl

end Symbol

namespace TypeExpr

variable {params : List String} {span : Span} {name : Ident} {args : List TypeExpr}

theorem written_token {access : Access} (h : Access.ofTokenName? name.name = some access)
    {inner : Ty} (hargs : writtenAll params args = [inner]) :
    (named span name args).written params = .token access inner := by
  rw [written, h, hargs]

theorem written_param (htoken : Access.ofTokenName? name.name = none) (hname : name.name ∈ params) :
    (named span name args).written params = .param name.name := by
  rw [written, htoken]
  exact if_pos hname

/-- A name that is neither that of a token nor a type parameter is that of a built-in type, or else it
is read as it is. -/
theorem written_named (htoken : Access.ofTokenName? name.name = none) (hname : name.name ∉ params) :
    (named span name args).written params =
      (Ty.builtin? name.name).getD (.named name.name (writtenAll params args)) := by
  rw [written, htoken]
  simp only [if_neg hname, Ty.builtin?]
  cases Primitive.ofName? name.name with
  | some p => rfl
  | none =>
      by_cases hblank : name.name = "Blank"
      · simp [hblank]
      · simp [hblank]

end TypeExpr

namespace Table

variable {table : Table} {params : List String} {name : String} {symbol : Symbol}

/-- The names of the built-in types stand for them. -/
def KeepsBuiltins (table : Table) : Prop :=
  ∀ name, (Ty.builtin? name).isSome = true → table.find? name = builtins.get? name

/-- These are the names that stand for type parameters. -/
def HasTypeParams (table : Table) (params : List String) : Prop :=
  ∀ name, name ∈ params ↔ ∃ symbol, table.find? name = some symbol ∧ symbol.IsTypeParam

/-- If the names of the built-in types stand for them, then types mean what an importer reads. -/
def Legible (table : Table) : Prop :=
  table.KeepsBuiltins → ∀ params, table.HasTypeParams params →
    ∀ type ty, table.resolve type = .ok ty → type.written params = ty

/-- Under its name, a built-in type is read as what it is; it has no parameters and is none. -/
theorem of_get?_builtins {ty : Ty} (hname : Ty.builtin? name = some ty)
    (hget : builtins.get? name = some symbol) :
    symbol.ty = ty ∧ symbol.params = [] ∧ ¬ symbol.IsTypeParam := by
  have hbuiltins : builtins.all (fun symbol => symbol.ty.isClosed && symbol.params.isEmpty &&
      (Ty.builtin? symbol.name).all (· == symbol.ty)) = true := by decide +kernel
  have hsymbol := List.all_eq_true.1 hbuiltins symbol (List.mem_of_find?_eq_some hget)
  obtain rfl : symbol.name = name := by simpa using List.find?_some hget
  simp only [hname, Option.all_some, Bool.and_eq_true, List.isEmpty_iff, beq_iff_eq] at hsymbol
  refine ⟨hsymbol.2.symm, hsymbol.1.2, fun hparam => ?_⟩
  rw [hparam.ty] at hsymbol
  cases hsymbol.1.1

/-- A name that stands for a type is read as that type, or else it is read with the types it is applied
to. Only a type of its own name can have parameters. -/
theorem written_of_find? (hall : table.All Symbol.Faithful) (hkeeps : table.KeepsBuiltins)
    (hparams : table.HasTypeParams params) {span : Span} {name : Ident} {args : List TypeExpr}
    (htoken : Access.ofTokenName? name.name = none) (hfind : table.find? name.name = some symbol)
    (htype : symbol.isType = true) :
    symbol.params = [] ∧ (TypeExpr.named span name args).written params = symbol.ty ∨
      symbol.ty = .plain name.name ∧ (TypeExpr.named span name args).written params =
        .named name.name (TypeExpr.writtenAll params args) := by
  obtain ⟨-, -, -, hname⟩ := mem_of_find? hfind
  have hmem : name.name ∈ params ↔ symbol.IsTypeParam := by
    rw [hparams, hfind]
    simp
  cases hbuiltin : Ty.builtin? name.name with
  | some ty =>
      have hget := hkeeps name.name (by rw [hbuiltin]; rfl)
      obtain ⟨hty, hnone, hparam⟩ := of_get?_builtins hbuiltin (hget.symm.trans hfind)
      rw [TypeExpr.written_named htoken (hmem.not.2 hparam), hbuiltin, hty]
      exact .inl ⟨hnone, rfl⟩
  | none =>
      rcases hall.find? hfind htype (hname ▸ hbuiltin) with hty | hparam
      · have hnew : name.name ∉ params := fun hold => by
          have hparam := (hmem.1 hold).ty
          rw [hty] at hparam
          cases hparam
        rw [TypeExpr.written_named htoken hnew, hbuiltin]
        exact .inr ⟨hname ▸ hty, rfl⟩
      · rw [TypeExpr.written_param htoken (hmem.2 hparam), hparam.ty, hname, Symbol.params,
          hparam.kind]
        exact .inl ⟨rfl, rfl⟩

mutual
/-- Where the names of the built-in types stand for them and all symbols are faithful, a type that
means something means what an importer reads off it. -/
theorem written_of_resolve (hall : table.All Symbol.Faithful) (hkeeps : table.KeepsBuiltins)
    (hparams : table.HasTypeParams params) : ∀ {type : TypeExpr} {ty : Ty},
    table.resolve type = .ok ty → type.written params = ty
  | .blank _, _, h => by
      cases h
      rfl
  | .named span name args, ty, h => by
      rw [resolve] at h
      obtain ⟨tys, hargs, h⟩ := exists_of_bind_eq_ok h
      have hwritten := writtenAll_of_resolveAll hall hkeeps hparams hargs
      split at h
      · rename_i access htoken
        split at h
        · cases h
          exact TypeExpr.written_token htoken hwritten
        · cases h
      · rename_i htoken
        split at h
        · cases h
        · rename_i symbol hfind
          split_ifs at h with htype hempty harity
          · cases h
            obtain rfl := List.isEmpty_iff.1 hempty
            rcases written_of_find? hall hkeeps hparams htoken hfind (by simpa using htype) with
              ⟨-, hread⟩ | ⟨hty, hread⟩
            · exact hread
            · rw [hread, hwritten, hty]
              rfl
          · cases h
            rcases written_of_find? hall hkeeps hparams htoken hfind (by simpa using htype) with
              ⟨hnone, -⟩ | ⟨-, hread⟩
            · rw [hnone, not_not, List.length_nil, List.length_eq_zero_iff] at harity
              exact absurd (List.isEmpty_iff.2 harity) hempty
            · rw [hread, hwritten]

theorem writtenAll_of_resolveAll (hall : table.All Symbol.Faithful) (hkeeps : table.KeepsBuiltins)
    (hparams : table.HasTypeParams params) : ∀ {types : List TypeExpr} {tys : List Ty},
    resolveAll table types = .ok tys → TypeExpr.writtenAll params types = tys
  | [], _, h => by
      cases h
      rfl
  | type :: types, _, h => by
      rw [resolveAll] at h
      obtain ⟨ty, htype, h⟩ := exists_of_bind_eq_ok h
      obtain ⟨tys, htypes, h⟩ := exists_of_bind_eq_ok h
      cases h
      rw [TypeExpr.writtenAll, written_of_resolve hall hkeeps hparams htype,
        writtenAll_of_resolveAll hall hkeeps hparams htypes]
end

end Table

/-- All symbols of the table are faithful. -/
structure State.Faithful (s : State) : Prop where
  sound : s.Sound
  table : s.table.All Symbol.Faithful

theorem State.Faithful.legible {s : State} (hs : s.Faithful) : s.table.Legible :=
  fun hkeeps _ hparams _ _ h => Table.written_of_resolve hs.table hkeeps hparams h

theorem State.Faithful.declare {s : State} {symbol : Symbol} {key : Binding} {table : Table}
    (hs : s.Faithful) (hsymbol : symbol.Faithful)
    (hdeclare : s.table.declare symbol = .ok (key, table)) : { s with table }.Faithful :=
  ⟨(Kept.declare Symbol.isChange_similar hdeclare).sound hs.sound,
    hs.table.declare hdeclare (hsymbol.atDepth _)⟩

namespace Check

variable {env : Env} {s : State}

/-- What is no type is faithful, whatever its name. -/
theorem lasting_faithful : Lasting State.Faithful where
  sound hs := hs.sound
  kept hs h := ⟨h.sound hs.sound, hs.table.grown Symbol.Faithful.similar h.table⟩
  around hs htable hledger := ⟨hs.sound.around htable hledger, htable ▸ hs.table⟩
  scope hs := ⟨hs.sound.openScope, hs.table.push⟩
  opened hs h := by
    obtain ⟨inner, htable⟩ := h.table_eq
    refine ⟨h.sound hs.sound, ?_⟩
    rw [htable]
    exact hs.table.push.append (Symbol.faithful_of_isType rfl)
  declare hs hsymbol hdeclare := hs.declare (Symbol.faithful_of_isType hsymbol) hdeclare

theorem declare_faithful {symbol : Symbol} (h : symbol.Faithful) :
    Leaves env State.Faithful (declare symbol) :=
  declare_leaves (fun hs hdeclare => hs.declare h hdeclare) (lasting_faithful.reportable _)

/-- A declared type stands for itself. -/
theorem declareType_faithful (decl : TypeDecl) :
    Leaves env State.Faithful (declare
      { Symbol.composite decl.semantics decl.name.name [] decl.paramNames decl.name.span with
        visibility := decl.visibility }) :=
  declare_faithful fun _ _ => .inl rfl

/-- A type parameter stands for itself. -/
theorem declareTypeParams_faithful (params : List Ident) :
    Leaves env State.Faithful (declareTypeParams params) :=
  declareTypeParams_leaves fun _ _ => declare_faithful fun _ _ => .inr ⟨rfl, rfl⟩

theorem checkDecl_faithful (decl : Decl) : Leaves env State.Faithful (checkDecl decl) := by
  cases decl with
  | routine routine =>
      exact lasting_faithful.checkRoutine (lasting_faithful.declareRoutine routine)
  | var decl => exact lasting_faithful.checkVar decl
  | type decl =>
      refine (declareType_faithful decl).seq fun _ => (lasting_faithful.of_keeps fun _ =>
        withFields_keeps stmtFrame_similar decl).seq fun fields => ?_
      refine .modify fun s hs => ⟨?_, hs.table.update fun _ h => h.setFields fields⟩
      have hkept : State.Kept Symbol.Revised 0 s
          { s with table := s.table.update decl.name.name (Symbol.setFields fields) } :=
        .of_table (.update Symbol.isChange_revised (Symbol.revised_setFields _) _ _)
      exact hkept.sound hs.sound

/-- Whatever a module exports, importers see faithful symbols only. -/
theorem importing_faithful (env : Env) : Importing env State.Faithful where
  exported decl := declare_faithful (Symbol.faithful_symbol env.language decl)
  module _ _ _ := lasting_faithful.declares rfl
  report _ := lasting_faithful.reportable _

theorem checkItem_faithful (item : LinkedItem) : Leaves env State.Faithful (checkItem item) :=
  checkItem_leaves (importing_faithful env) checkDecl_faithful item

end Check

namespace Linked

open Check

variable {settings : Settings} {linked : Linked} {s : State}

theorem faithful_initial : initial.Faithful := by
  have hbuiltins : ∀ symbol ∈ Table.builtins,
      Ty.builtin? symbol.name = none → symbol.ty = .plain symbol.name := by decide +kernel
  refine ⟨Ledger.within_empty, Table.all_iff_root.2 ⟨fun symbol hsymbol => ?_, ?_⟩⟩
  · exact fun _ hname => .inl (hbuiltins symbol hsymbol hname)
  · simp [initial, Table.initial]

theorem faithful_start (settings : Settings) (linked : Linked) :
    (linked.start settings).Faithful := by
  have hprelude : Leaves (linked.env settings) State.Faithful
      (loadPrelude settings.toleratesMissingPrelude linked.prelude) :=
    loadPrelude_leaves (importing_faithful _) _ _
  exact lasting_faithful.scope (hprelude.left faithful_initial)

theorem Reachable.faithful (h : Reachable settings linked s) : s.Faithful :=
  h.of_lasting lasting_faithful (faithful_start settings linked) checkItem_faithful

theorem faithful_analyzed (settings : Settings) (linked : Linked) :
    (checkItems linked.items (linked.env settings) (linked.start settings)).2.Faithful :=
  (checkItems_leaves checkItem_faithful linked.items).left (faithful_start settings linked)

end Linked

end Custody
