import Custody.Proofs.Library.Loads
import Custody.Session

/-! Requests to the store as relations, which also speak of loads without an end, and two runs of
one request. Whether two stores agree on a request is a question about single requests only: they
then agree on all the modules of a program. -/

namespace Custody

/-- Something that is asked of a store, as the relation between the store, the outcome and the store
afterwards. Where a load has no end there is no outcome. -/
def Asking (α : Type) : Type :=
  Store → α × Store → Prop

namespace Asking

variable {α β : Type}

instance : Monad Asking where
  pure a := fun store outcome => outcome = (a, store)
  bind asking next := fun store outcome =>
    ∃ a between, asking store (a, between) ∧ next a between outcome

instance : LawfulMonad Asking :=
  LawfulMonad.mk' Asking
    (by
      intro α asking
      funext store outcome
      apply propext
      constructor
      · rintro ⟨a, between, hasking, rfl⟩
        exact hasking
      · intro hasking
        exact ⟨outcome.1, outcome.2, hasking, rfl⟩)
    (by
      intro α β a next
      funext store outcome
      apply propext
      constructor
      · rintro ⟨_, _, heq, hnext⟩
        cases heq
        exact hnext
      · intro hnext
        exact ⟨a, store, rfl, hnext⟩)
    (by
      intro α β γ asking next last
      funext store outcome
      apply propext
      constructor
      · rintro ⟨b, t, ⟨a, s, hasking, hnext⟩, hlast⟩
        exact ⟨a, s, hasking, b, t, hnext, hlast⟩
      · rintro ⟨a, s, hasking, b, t, hnext, hlast⟩
        exact ⟨b, t, ⟨a, s, hasking, hnext⟩, hlast⟩)

/-- The relation of a function. -/
def ofState (run : StateM Store α) : Asking α :=
  fun store outcome => run store = outcome

theorem ofState_pure (a : α) : ofState (pure a) = pure a := by
  funext store outcome
  exact propext eq_comm

theorem ofState_bind (run : StateM Store α) (next : α → StateM Store β) :
    ofState (run >>= next) = ofState run >>= fun a => ofState (next a) := by
  funext store outcome
  apply propext
  constructor
  · intro h
    exact ⟨(run store).1, (run store).2, rfl, h⟩
  · rintro ⟨a, between, hrun, hnext⟩
    show next (run store).1 (run store).2 = outcome
    rw [show run store = (a, between) from hrun]
    exact hnext

theorem ofState_mapM (f : α → StateM Store β) (items : List α) :
    ofState (items.mapM f) = items.mapM fun a => ofState (f a) := by
  induction items with
  | nil => exact ofState_pure []
  | cons a items ih =>
      rw [List.mapM_cons, List.mapM_cons, ofState_bind]
      congr 1
      funext b
      rw [ofState_bind, ih]
      congr 1
      funext bs
      exact ofState_pure _

/-! ### Two runs of one request -/

/-- What can come out of `asking` in a store with the property `P` can also come out in a store with
the property `Q`, and the properties stay. -/
def Agrees (P Q : Store → Prop) (asking : Asking α) : Prop :=
  ∀ store store' a after, P store → Q store' → asking store (a, after) →
    P after ∧ ∃ after', asking store' (a, after') ∧ Q after'

namespace Agrees

variable {P Q : Store → Prop}

theorem pure (a : α) : Agrees P Q (Pure.pure a) := by
  intro store store' b after hP hQ hrun
  cases hrun
  exact ⟨hP, store', rfl, hQ⟩

theorem bind {asking : Asking α} {next : α → Asking β} (h : Agrees P Q asking)
    (hnext : ∀ a, Agrees P Q (next a)) : Agrees P Q (asking >>= next) := by
  intro store store' b after hP hQ hrun
  obtain ⟨a, between, hasking, hrest⟩ := hrun
  obtain ⟨hPbetween, between', hasking', hQbetween⟩ := h store store' a between hP hQ hasking
  obtain ⟨hPafter, after', hrest', hQafter⟩ :=
    hnext a between between' b after hPbetween hQbetween hrest
  exact ⟨hPafter, after', ⟨a, between', hasking', hrest'⟩, hQafter⟩

theorem mapM {f : α → Asking β} {items : List α} (h : ∀ a ∈ items, Agrees P Q (f a)) :
    Agrees P Q (items.mapM f) := by
  induction items with
  | nil => exact pure []
  | cons a items ih =>
      rw [List.mapM_cons]
      refine bind (h a List.mem_cons_self) fun b => ?_
      refine bind (ih fun other hmem => h other (List.mem_cons_of_mem _ hmem)) fun bs => ?_
      exact pure (b :: bs)

end Agrees

/-! ### What is done to the store -/

/-- All that `asking` does to the store is to request modules. -/
def Requesting (fetch : Fetch) (asking : Asking α) : Prop :=
  ∀ store a after, asking store (a, after) → Store.Follows fetch store after

namespace Requesting

variable {fetch : Fetch}

theorem pure (a : α) : Requesting fetch (Pure.pure a) := by
  intro store b after hrun
  cases hrun
  exact .refl

theorem bind {asking : Asking α} {next : α → Asking β} (h : Requesting fetch asking)
    (hnext : ∀ a, Requesting fetch (next a)) : Requesting fetch (asking >>= next) := by
  rintro store b after ⟨a, between, hasking, hrest⟩
  exact Relation.ReflTransGen.trans (h store a between hasking) (hnext a between b after hrest)

theorem mapM {f : α → Asking β} (h : ∀ a, Requesting fetch (f a)) (items : List α) :
    Requesting fetch (items.mapM f) := by
  induction items with
  | nil => exact pure []
  | cons a items ih =>
      rw [List.mapM_cons]
      exact bind (h a) fun b => bind ih fun bs => pure (b :: bs)

end Requesting

end Asking

namespace Program

/-- The specifiers that a program requests: those of the prelude and those of its imports. -/
def requests (program : Program) (language : Language) : List String :=
  language.prelude ++ program.imports.map (·.path)

/-- The modules of a program are requested from the store. -/
def Links (fetch : Fetch) (language : Language) (program : Program) : Asking Linked :=
  program.link (fun specifier store outcome => Store.Requests fetch specifier store outcome.1 outcome.2)
    language

open Asking

variable {P Q : Store → Prop} {fetch : Fetch} {language : Language} {program : Program}

/-- Two runs agree on a program if they agree on all that it requests. -/
theorem agrees_link {load : String → Asking (Except LoadError Module)}
    (h : ∀ specifier ∈ program.requests language, Agrees P Q (load specifier)) :
    Agrees P Q (program.link load language) := by
  refine .bind (.mapM fun path hpath => ?_) fun prelude => ?_
  · exact .bind (h path (List.mem_append_left _ hpath)) fun _ => .pure _
  · refine .bind (.mapM fun item hitem => ?_) fun items => .pure _
    cases item with
    | decl decl => exact .pure _
    | load import_ =>
        have himport : import_.path ∈ program.imports.map (·.path) :=
          List.mem_map_of_mem (List.mem_filterMap.2 ⟨_, hitem, rfl⟩)
        exact .bind (h import_.path (List.mem_append_right _ himport)) fun _ => .pure _

theorem requesting_links : Requesting fetch (program.Links fetch language) := by
  have hrequest : ∀ specifier, Requesting fetch fun store outcome =>
      Store.Requests fetch specifier store outcome.1 outcome.2 :=
    fun specifier _ result _ hrun => .single ⟨specifier, result, hrun⟩
  refine .bind (.mapM (fun path => .bind (hrequest path) fun _ => .pure _) _) fun prelude => ?_
  refine .bind (.mapM (fun item => ?_) _) fun items => .pure _
  cases item with
  | decl decl => exact .pure _
  | load import_ => exact .bind (hrequest import_.path) fun _ => .pure _

/-- Requesting the modules by a function is requesting them by its relation. -/
theorem ofState_link (load : String → StateM Store (Except LoadError Module)) :
    ofState (program.link load language) =
      program.link (fun specifier => ofState (load specifier)) language := by
  have hitem : ∀ item : Item, ofState (linkItem load item) =
      linkItem (fun specifier => ofState (load specifier)) item := by
    intro item
    cases item with
    | decl decl => exact ofState_pure _
    | load import_ => simp only [linkItem, ofState_bind, ofState_pure]
  simp only [link, ofState_bind, ofState_mapM, ofState_pure, hitem]

/-- From a source that answers finitely many paths, the modules are those that the loader gives. -/
theorem links_iff {source : Source} {store after : Store} {linked : Linked} :
    program.Links source.fetch language store (linked, after) ↔
      Session.link source language program store = (linked, after) := by
  have hload : (fun specifier store outcome =>
      Store.Requests source.fetch specifier store outcome.1 outcome.2) =
      fun specifier => ofState (fun store => Store.load source specifier store) := by
    funext specifier store outcome
    exact propext Store.requests_iff
  rw [Links, hload, ← ofState_link]
  exact Iff.rfl

end Program

end Custody
